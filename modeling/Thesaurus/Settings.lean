/-!
# Settings

The settings of an editor. Every setting has a default. Lengths have to be positive and energies
have to lie in the half-open interval from 0 to 1; `Settings.fault?` names the first setting that
does not.
-/

namespace Thesaurus

/-- How the graph view lays out and shows its nodes. Forces are singles, the rest doubles. -/
structure LayoutSettings where
  /-- How strongly nodes repel each other. -/
  charge : Float32 := 150
  /-- How strongly lines attract their ends. -/
  spring : Float32 := 0.05
  /-- The limit of a force along one axis. -/
  forceMax : Float32 := 100
  /-- How far an acceleration carries. -/
  nodeSpeed : Float32 := 3000
  /-- The share of its velocity that a node keeps. -/
  damping : Float32 := 0.9
  /-- The length of a relaxed line. -/
  linkDistance : Float := 60
  /-- How strongly the whole is drawn to the middle. -/
  centerStrength : Float := 0.1
  /-- How strongly each node is drawn to the axes through the middle. -/
  axisStrength : Float := 0.02
  /-- The distance that a node keeps free around itself. -/
  collisionRadius : Float := 12
  /-- The share of its energy that the layout loses in a step. -/
  alphaDecay : Float := 0.0228
  /-- The energy below which the layout rests. -/
  alphaMin : Float := 0.001
  /-- The energy after a change of the graph. -/
  reheatAlpha : Float := 0.3
  /-- The energy after a change of the size. -/
  resizeAlpha : Float := 0.1
  /-- The movement below which the layout rests. -/
  motionEpsilon : Float := 0.01
  /-- The radius of a drawn node. -/
  nodeRadius : Float := 5
  /-- The distance within which a node is hit. -/
  hitRadius : Float := 12
deriving BEq

/-- How the tree view behaves. -/
structure TreeSettings where
  /-- Whether the roots are open when a scheme has been loaded. -/
  expandRootsOnLoad : Bool := true
  /-- How many characters a search needs. -/
  searchMinChars : Nat := 1
deriving BEq

/-- The settings of an editor. -/
structure Settings where
  /-- The settings of the graph view. -/
  layout : LayoutSettings := {}
  /-- The settings of the tree view. -/
  tree : TreeSettings := {}
deriving BEq

/-- Why settings are refused. -/
inductive SettingsFault where
  /-- The text is no settings text. -/
  | malformed
  /-- A length is not positive. -/
  | notPositive (setting : String)
  /-- An energy is not above 0 and at most 1. -/
  | notInUnitInterval (setting : String)
deriving DecidableEq

/-- The sentence that tells the error. -/
def SettingsFault.message : SettingsFault → String
  | malformed => "invalid editor config"
  | notPositive setting => "invalid editor config: " ++ setting ++ " must be positive"
  | notInUnitInterval setting => "invalid editor config: " ++ setting ++ " must be in (0, 1]"

namespace LayoutSettings

/-- The settings that have to be positive. -/
def lengths (settings : LayoutSettings) : List (String × Float) :=
  [("link_distance", settings.linkDistance), ("collision_radius", settings.collisionRadius),
    ("node_radius", settings.nodeRadius), ("hit_radius", settings.hitRadius)]

/-- The settings that have to be above 0 and at most 1. -/
def energies (settings : LayoutSettings) : List (String × Float) :=
  [("alpha_decay", settings.alphaDecay), ("alpha_min", settings.alphaMin),
    ("reheat_alpha", settings.reheatAlpha), ("resize_alpha", settings.resizeAlpha)]

/-- The first setting out of its range, if there is one; lengths are looked at first. -/
def fault? (settings : LayoutSettings) : Option SettingsFault :=
  match settings.lengths.find? fun setting => !(0 < setting.2) with
  | some (name, _) => some (.notPositive name)
  | none =>
    match settings.energies.find? fun setting => !(0 < setting.2 && setting.2 ≤ 1) with
    | some (name, _) => some (.notInUnitInterval name)
    | none => none

end LayoutSettings

/-- The first setting out of its range, if there is one. -/
def Settings.fault? (settings : Settings) : Option SettingsFault := settings.layout.fault?

end Thesaurus

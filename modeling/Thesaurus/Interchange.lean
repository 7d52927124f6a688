import Thesaurus.Settings
import Thesaurus.Json.Fields
import Thesaurus.Json.Format
import Thesaurus.Drag

/-!
# Records, changes and settings as JSON

How records and changes travel between an editor and its repository, and how settings are
written, in a format that is given. The lists of a record may be left out, and so may its definition
and, in an object, the optional ids of a change. Every setting may be left out.
-/

namespace Thesaurus

open Json

namespace Record

/-- The names of the fields of a record, in order. -/
def fieldNames : List String :=
  ["id", "prefLabel", "altLabels", "definition", "broaderIds", "relatedIds"]

/-- Read a record. -/
def ofJson? (value : Value) : Option Record := do
  let fields ← value.fields? fieldNames
  let id ← fields.required "id" Value.text?
  let label ← fields.required "prefLabel" Value.text?
  let altLabels ← fields.optional "altLabels" [] Value.texts?
  let definition ← fields.optional "definition" none Value.optionalText?
  let broader ← fields.optional "broaderIds" [] Value.texts?
  let related ← fields.optional "relatedIds" [] Value.texts?
  return { id, label, altLabels, definition, broader, related }

/-- Write a record with all its fields. -/
def toJson (record : Record) : Value :=
  .ofMembers [("id", .ofText record.id), ("prefLabel", .ofText record.label),
    ("altLabels", .ofTexts record.altLabels),
    ("definition", .ofOption (record.definition.map .ofText)),
    ("broaderIds", .ofTexts record.broader), ("relatedIds", .ofTexts record.related)]

/-- Read the text of an array of records. -/
def parseAll? (format : Format) (text : String) : Option (List Record) := do
  let value ← format.read? text
  let items ← value.items?
  items.mapM ofJson?

end Record

namespace ParentChange

/-- The names of the fields of a change, in order. -/
def fieldNames : List String := ["conceptId", "newParentId", "previousParentIdToRemove"]

/-- Whether a value is an array that does not give all fields of a change. -/
def endsEarly : Value → Bool
  | .array items => items.length < fieldNames.length
  | _ => false

/-- Read a change. An array has to give all its fields. -/
def ofJson? (value : Value) : Option ParentChange := do
  if endsEarly value then none
  let fields ← value.fields? fieldNames
  let concept ← fields.required "conceptId" Value.text?
  let added ← fields.optional "newParentId" none Value.optionalText?
  let removed ← fields.optional "previousParentIdToRemove" none Value.optionalText?
  return { concept, added, removed }

/-- Write a change with all its fields. -/
def toJson (change : ParentChange) : Value :=
  .ofMembers [("conceptId", .ofText change.concept),
    ("newParentId", .ofOption (change.added.map .ofText)),
    ("previousParentIdToRemove", .ofOption (change.removed.map .ofText))]

/-- Read the text of a change. -/
def parse? (format : Format) (text : String) : Option ParentChange :=
  (format.read? text).bind ofJson?

end ParentChange

namespace LayoutSettings

/-- The names of the settings, in order. -/
def fieldNames : List String :=
  ["charge", "spring", "force_max", "node_speed", "damping", "link_distance", "center_strength",
    "axis_strength", "collision_radius", "alpha_decay", "alpha_min", "reheat_alpha",
    "resize_alpha", "motion_epsilon", "node_radius", "hit_radius"]

/-- Read a single. -/
def single? (value : Value) : Option Float32 := value.numeral?.bind Numeral.single?

/-- Read a double. -/
def double? (value : Value) : Option Float := value.numeral?.bind Numeral.double?

/-- Read the settings of the graph view. -/
def ofJson? (value : Value) : Option LayoutSettings := do
  let base : LayoutSettings := {}
  let fields ← value.fields? fieldNames
  return {
    charge := ← fields.optional "charge" base.charge single?
    spring := ← fields.optional "spring" base.spring single?
    forceMax := ← fields.optional "force_max" base.forceMax single?
    nodeSpeed := ← fields.optional "node_speed" base.nodeSpeed single?
    damping := ← fields.optional "damping" base.damping single?
    linkDistance := ← fields.optional "link_distance" base.linkDistance double?
    centerStrength := ← fields.optional "center_strength" base.centerStrength double?
    axisStrength := ← fields.optional "axis_strength" base.axisStrength double?
    collisionRadius := ← fields.optional "collision_radius" base.collisionRadius double?
    alphaDecay := ← fields.optional "alpha_decay" base.alphaDecay double?
    alphaMin := ← fields.optional "alpha_min" base.alphaMin double?
    reheatAlpha := ← fields.optional "reheat_alpha" base.reheatAlpha double?
    resizeAlpha := ← fields.optional "resize_alpha" base.resizeAlpha double?
    motionEpsilon := ← fields.optional "motion_epsilon" base.motionEpsilon double?
    nodeRadius := ← fields.optional "node_radius" base.nodeRadius double?
    hitRadius := ← fields.optional "hit_radius" base.hitRadius double? }

/-- The settings of the graph view by name, singles as doubles. -/
def byName (settings : LayoutSettings) : List (String × Float) :=
  fieldNames.zip
    [settings.charge.toFloat, settings.spring.toFloat, settings.forceMax.toFloat,
      settings.nodeSpeed.toFloat, settings.damping.toFloat, settings.linkDistance,
      settings.centerStrength, settings.axisStrength, settings.collisionRadius,
      settings.alphaDecay, settings.alphaMin, settings.reheatAlpha, settings.resizeAlpha,
      settings.motionEpsilon, settings.nodeRadius, settings.hitRadius]

end LayoutSettings

namespace TreeSettings

/-- Read the settings of the tree view. -/
def ofJson? (value : Value) : Option TreeSettings := do
  let base : TreeSettings := {}
  let fields ← value.fields? ["expand_roots_on_load", "search_min_chars"]
  let expandRootsOnLoad ← fields.optional "expand_roots_on_load" base.expandRootsOnLoad Value.bool?
  let searchMinChars ← fields.optional "search_min_chars" base.searchMinChars
    fun value => value.numeral?.bind Numeral.unsigned?
  return { expandRootsOnLoad, searchMinChars }

end TreeSettings

namespace Settings

/-- Read settings. -/
def ofJson? (value : Value) : Option Settings := do
  let fields ← value.fields? ["layout", "tree"]
  let layout ← fields.optional "layout" {} LayoutSettings.ofJson?
  let tree ← fields.optional "tree" {} TreeSettings.ofJson?
  return { layout, tree }

/-- Read and check the text of settings. -/
def parse (format : Format) (text : String) : Except SettingsFault Settings :=
  match (format.read? text).bind ofJson? with
  | none => .error .malformed
  | some settings =>
    match settings.fault? with
    | some fault => .error fault
    | none => .ok settings

end Settings

end Thesaurus

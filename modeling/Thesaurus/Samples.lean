import Thesaurus.Settings
import Thesaurus.Repository

/-!
# What the editor is shipped with

Two small vocabularies, in which some concepts have several broader ones, and the settings that
the editor starts with.
-/

namespace Thesaurus.Samples

/-- The names of the vocabularies, in the order offered. -/
def schemes : List String := ["animals", "materials"]

/-- A vocabulary of animals. -/
def animals : List Record :=
  [{ id := "animals", label := "Animals", definition := some "Multicellular organisms" },
    { id := "mammals", label := "Mammals", broader := ["animals"] },
    { id := "birds", label := "Birds", broader := ["animals"] },
    { id := "pets", label := "Pets", altLabels := ["Companion animals"] },
    { id := "canines", label := "Canines", broader := ["mammals"] },
    { id := "dogs", label := "Dogs", altLabels := ["Hounds"], broader := ["canines", "pets"],
      related := ["wolves"] },
    { id := "wolves", label := "Wolves", broader := ["canines"] },
    { id := "cats", label := "Cats", altLabels := ["Felines"], broader := ["mammals", "pets"] },
    { id := "parrots", label := "Parrots", broader := ["birds", "pets"] },
    { id := "crows", label := "Crows", broader := ["birds"] }]

/-- A vocabulary of materials. -/
def materials : List Record :=
  [{ id := "materials", label := "Materials" },
    { id := "metals", label := "Metals", broader := ["materials"] },
    { id := "alloys", label := "Alloys", broader := ["metals"] },
    { id := "steel", label := "Steel", broader := ["alloys"], related := ["iron"] },
    { id := "iron", label := "Iron", broader := ["metals"] },
    { id := "polymers", label := "Polymers", altLabels := ["Plastics"],
      broader := ["materials"] }]

/-- The repository with both vocabularies. -/
def repository : Repository :=
  (Repository.empty.withScheme "animals" animals).withScheme "materials" materials

/-- The settings that the editor starts with. -/
def settings : Settings :=
  { layout := { linkDistance := 70, collisionRadius := 14, reheatAlpha := 0.3, resizeAlpha := 0.1 }
    tree := { expandRootsOnLoad := true, searchMinChars := 2 } }

end Thesaurus.Samples

import PubspecTidy.Analysis

/-!
# Planned changes

The changes that an analysis calls for: first the removals, then the moves to the development
dependencies, then those out of them, and last the packages that are declared twice, which no other
change touches.
-/
namespace PubspecTidy

open Manifest (Change)

/-- A change, with the text that reports it and the question whether to make it. -/
structure PlannedChange where
  change : Change
  description : String
  question : String
  deriving DecidableEq, Repr

namespace PlannedChange

def removal (f : Finding) : PlannedChange where
  change := ⟨f.name, .remove, some f.version⟩
  description := "Removed unused dependency: " ++ f.name
  question := f.name ++ ": unused dependency. Remove it?"

/-- The move of a package to the section where it belongs. -/
def moving (f : Finding) : PlannedChange where
  change := ⟨f.name, .moveTo f.kind.other, some f.version⟩
  description := "Moved to " ++ f.kind.other.name ++ ": " ++ f.name
  question := f.name ++ ": " ++ f.usage.description ++ ". Move to " ++ f.kind.other.name ++ "?"

/-- The removal of a package from the section where it is not kept. -/
def resolution (d : Duplicate) : PlannedChange where
  change := ⟨d.name, .removeFrom d.keep.other, none⟩
  description := "Removed duplicate from " ++ d.keep.other.name ++ ": " ++ d.name
  question := d.name ++ d.versionsText ++ ": duplicate. " ++ d.message ++ "?"

/-- The text that announces a change before it is made. -/
def preview (p : PlannedChange) : String :=
  Text.replaceFirst (Text.replaceFirst p.description "Removed" "Would remove") "Moved" "Would move"

end PlannedChange

namespace Analysis

def isDuplicated (a : Analysis) (f : Finding) : Bool := a.duplicates.any (·.name == f.name)

/-- The changes for everything that was found. -/
def plan (a : Analysis) : List PlannedChange :=
  let single (fs : List Finding) : List Finding := fs.filter (!a.isDuplicated ·)
  (single a.unused).map PlannedChange.removal
    ++ (single a.misplaced).map PlannedChange.moving
    ++ (single a.promotable).map PlannedChange.moving
    ++ a.duplicates.map PlannedChange.resolution

/-- What the changes would be announced as. -/
def previews (a : Analysis) : List String := a.plan.map PlannedChange.preview

end Analysis
end PubspecTidy

/-!
# Changes to a manifest

The two sections that hold dependencies, and what can be asked of a package declared there.
-/
namespace PubspecTidy.Manifest

/-- The sections that the editor keeps track of. -/
inductive SectionKind where
  | dependencies
  | devDependencies
  deriving DecidableEq, Repr

namespace SectionKind

def all : List SectionKind := [dependencies, devDependencies]

def name : SectionKind → String
  | dependencies => "dependencies"
  | devDependencies => "dev_dependencies"

def ofName? (s : String) : Option SectionKind := all.find? (·.name == s)

def other : SectionKind → SectionKind
  | dependencies => devDependencies
  | devDependencies => dependencies

end SectionKind

inductive Action where
  /-- Drops the package from both sections. -/
  | remove
  /-- Moves the package into a section out of the other one. -/
  | moveTo (target : SectionKind)
  | removeFrom (source : SectionKind)
  deriving DecidableEq, Repr

namespace Action

def name : Action → String
  | remove => "remove"
  | moveTo .devDependencies => "move_to_dev_dependencies"
  | moveTo .dependencies => "move_to_dependencies"
  | removeFrom .dependencies => "remove_from_dependencies"
  | removeFrom .devDependencies => "remove_from_dev_dependencies"

def all : List Action :=
  [remove, moveTo .devDependencies, moveTo .dependencies, removeFrom .dependencies,
   removeFrom .devDependencies]

def ofName? (s : String) : Option Action := all.find? (·.name == s)

end Action

/-- One requested edit. -/
structure Change where
  package : String
  action : Action
  version : Option String := none
  deriving DecidableEq, Repr

end PubspecTidy.Manifest

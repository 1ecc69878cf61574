import PubspecTidy.Analysis
import PubspecTidy.Category.Resolver

/-!
# Dependencies grouped by category

Every dependency stands in the group of its category, which an override may set. A group lists its
packages by name, and the groups come in the order of their categories.
-/
namespace PubspecTidy

open Category (Resolver ServiceFault)
open Time (Stamp)

structure Grouping where
  groups : Table String (List Finding)
  /-- The categories in the order in which their groups are shown. -/
  order : List String
  deriving DecidableEq, Repr

namespace Grouping

def empty : Grouping := ⟨[], []⟩

/-- Adds a package to the group of a category. -/
def addTo (groups : Table String (List Finding)) (category : String) (f : Finding) :
    Table String (List Finding) :=
  Table.alter groups category fun group => group.getD [] ++ [f]

def byName (group : List Finding) : List Finding :=
  group.mergeSort fun f g => decide (¬ g.name < f.name)

/-- The grouping of packages that come with their categories. -/
def ofPairs (pairs : List (String × Finding)) : Grouping :=
  let groups := pairs.foldl (fun t p => addTo t p.1 p.2) []
  ⟨groups.map fun e => (e.1, byName e.2), Category.sort (Table.keys groups)⟩

def group (g : Grouping) (category : String) : List Finding := Table.getD g.groups category []

def packages (g : Grouping) : List Finding := (Table.values g.groups).flatten

def isEmpty (g : Grouping) : Bool := g.groups.isEmpty

/-- The category of a package: the one that overrides set, or else the one that is found. -/
def categoryOf (r : Resolver) (overrides : Table String String) (now : Stamp) (s : Resolver.State)
    (name : String) : Except ServiceFault String × Resolver.State :=
  match Table.get? overrides name with
  | some category => (.ok category, s)
  | none => r.primary s now name

/-- The packages with their categories, one after the other. -/
def categorize (r : Resolver) (overrides : Table String String) (now : Stamp) :
    Resolver.State → List Finding → Except ServiceFault (List (String × Finding)) × Resolver.State
  | s, [] => (.ok [], s)
  | s, f :: rest =>
    match categoryOf r overrides now s f.name with
    | (.error fault, s) => (.error fault, s)
    | (.ok category, s) =>
      let (pairs, s) := categorize r overrides now s rest
      (pairs.map ((category, f) :: ·), s)

/-- Groups packages by their categories. -/
def of (r : Resolver) (overrides : Table String String) (now : Stamp) (s : Resolver.State)
    (findings : List Finding) : Except ServiceFault Grouping × Resolver.State :=
  let (pairs, s) := categorize r overrides now s findings
  (pairs.map ofPairs, s)

end Grouping
end PubspecTidy

import PubspecTidy.Table
import PubspecTidy.Usage.Role

/-!
# Where a package is imported

A record says in which roles a package is imported. Marking a role and merging two records only
ever add to it. Imports from files without a role are noted, but make a package no more used.
-/
namespace PubspecTidy.Usage

structure Record where
  lib : Bool := false
  test : Bool := false
  bin : Bool := false
  tool : Bool := false
  elsewhere : Bool := false
  deriving DecidableEq, Repr

namespace Record

def isUsed (u : Record) : Bool := u.lib || u.test || u.bin || u.tool

def mark (u : Record) : Option Role → Record
  | some .lib => { u with lib := true }
  | some .test => { u with test := true }
  | some .bin => { u with bin := true }
  | some .tool => { u with tool := true }
  | none => { u with elsewhere := true }

def merge (u v : Record) : Record where
  lib := u.lib || v.lib
  test := u.test || v.test
  bin := u.bin || v.bin
  tool := u.tool || v.tool
  elsewhere := u.elsewhere || v.elsewhere

def has (u : Record) : Role → Bool
  | .lib => u.lib
  | .test => u.test
  | .bin => u.bin
  | .tool => u.tool

/-- The roles in which the package is imported. -/
def locations (u : Record) : List String := (Role.all.filter u.has).map Role.name

def description (u : Record) : String :=
  if u.isUsed then "used in " ++ Text.join ", " u.locations else "unused"

end Record

/-- The records of all imported packages. -/
abbrev Usages := Table String Record

/-- Notes an import of each of the packages from a file with a role. -/
def markAll (usages : Usages) (role : Option Role) (packages : List String) : Usages :=
  packages.foldl (fun t p => Table.put t p ((Table.getD t p {}).mark role)) usages

end PubspecTidy.Usage

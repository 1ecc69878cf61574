import PubspecTidy.Manifest.Declaration
import PubspecTidy.Usage.Record

/-!
# Which declarations need attention

Every declaration is held against where its package is imported. A dependency should be imported
from `lib` or `bin`; one that is imported from `test` or `tool` alone belongs to the development
dependencies, and one that is not imported at all can go. A development dependency is never called
unused, since tools need no import, but belongs to the dependencies once `lib` or `bin` imports it.
-/
namespace PubspecTidy

open Manifest (Declaration SectionKind)
open Usage (Record Usages)

inductive Status where
  | used
  /-- Declared in the other section than the one where it belongs. -/
  | testOnly
  | unused
  deriving DecidableEq, Repr

namespace Status

def name : Status → String
  | used => "used"
  | testOnly => "test_only"
  | unused => "unused"

def label : Status → String
  | used => "Used"
  | testOnly => "Test Only"
  | unused => "Unused"

/-- The status of a package in a section. -/
def of (kind : SectionKind) (u : Record) : Status :=
  match kind with
  | .dependencies =>
    if u.lib || u.bin then used else if u.test || u.tool then testOnly else unused
  | .devDependencies => if u.lib || u.bin then testOnly else used

end Status

/-- What was found about one declaration. -/
structure Finding where
  name : String
  version : String
  kind : SectionKind
  status : Status
  usage : Record
  deriving DecidableEq, Repr

namespace Finding

def recommendation (f : Finding) : String :=
  match f.status with
  | .unused => "Remove (unused)"
  | .testOnly => "Move to " ++ f.kind.other.name
  | .used => "Keep in " ++ f.kind.name

/-- Whether the declaration should go or move down to the development dependencies. -/
def needsAction (f : Finding) : Bool :=
  f.status == .unused || (f.status == .testOnly && f.kind == .dependencies)

/-- Whether the declaration should move up to the dependencies. -/
def shouldPromote (f : Finding) : Bool := f.status == .testOnly && f.kind == .devDependencies

end Finding

/-- A package that both sections declare. -/
structure Duplicate where
  name : String
  version : String
  devVersion : String
  usage : Record
  deriving DecidableEq, Repr

namespace Duplicate

/-- The section to keep the package in. -/
def keep (d : Duplicate) : SectionKind :=
  if d.usage.lib then .dependencies else .devDependencies

def message (d : Duplicate) : String :=
  "Keep in " ++ d.keep.name ++ " (" ++ d.usage.description ++ ")"

def hasConflict (d : Duplicate) : Bool := d.version != d.devVersion

/-- The two versions, where they differ. -/
def versionsText (d : Duplicate) : String :=
  if d.hasConflict then " (versions: " ++ d.version ++ " vs " ++ d.devVersion ++ ")" else ""

end Duplicate

structure Analysis where
  findings : List Finding
  duplicates : List Duplicate
  deriving DecidableEq, Repr

namespace Analysis

def withStatus (a : Analysis) (s : Status) : List Finding := a.findings.filter (·.status == s)

def used (a : Analysis) : List Finding := a.withStatus .used

def testOnly (a : Analysis) : List Finding := a.withStatus .testOnly

def unused (a : Analysis) : List Finding := a.withStatus .unused

/-- The dependencies that only `test` or `tool` imports. -/
def misplaced (a : Analysis) : List Finding := a.testOnly.filter (·.kind == .dependencies)

def promotable (a : Analysis) : List Finding := a.findings.filter Finding.shouldPromote

def hasIssues (a : Analysis) : Bool :=
  a.findings.any (fun f => f.needsAction || f.shouldPromote) || !a.duplicates.isEmpty

def ofKind (a : Analysis) (kind : SectionKind) : List Finding := a.findings.filter (·.kind == kind)

/-- The package of the toolkit itself, which every manifest declares. -/
def sdkPackage : String := "flutter"

def findingOf (usages : Usages) (d : Declaration) : Finding :=
  let u := Table.getD usages d.name {}
  ⟨d.name, d.version, d.kind, Status.of d.kind u, u⟩

/-- A dependency that is declared among the development dependencies too; of several there, the
last one counts. -/
def duplicateOf? (usages : Usages) (dev : List Declaration) (d : Declaration) : Option Duplicate :=
  (dev.reverse.find? (·.name == d.name)).map fun e =>
    ⟨d.name, d.version, e.version, Table.getD usages d.name {}⟩

/-- Whether there is a text for every version that is looked at. -/
def areShown (declarations : List Declaration) (sdk : String := sdkPackage) : Bool :=
  declarations.all fun d => d.name == sdk || d.isShown

/-- Holds declarations against imports, leaving the package of the toolkit out. -/
def classify (dependencies dev : List Declaration) (usages : Usages)
    (sdk : String := sdkPackage) : Analysis :=
  let dependencies := dependencies.filter (·.name != sdk)
  let dev := dev.filter (·.name != sdk)
  { findings := (dependencies ++ dev).map (findingOf usages)
    duplicates := dependencies.filterMap (duplicateOf? usages dev) }

end Analysis
end PubspecTidy

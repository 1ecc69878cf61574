import PubspecTidy.Manifest.Change
import PubspecTidy.Manifest.Section
import PubspecTidy.Text.Lines

/-!
# Editing a manifest

The editor cuts blocks of lines out and puts them in elsewhere; all other lines stay as they are.
It keeps the place of each tracked section and shifts it with every cut and insertion, so that each
change of a batch sees the lines as the changes before it left them.
-/
namespace PubspecTidy.Manifest

structure Editor where
  lines : List String
  dependencies : Option Section
  devDependencies : Option Section
  /-- What a new line ends with before its line feed: a carriage return or nothing. -/
  lineEnd : String
  deriving DecidableEq, Repr

namespace Editor

def endsInReturn (line : String) : Bool := line.toList.getLast? == some '\r'

def ofLines (lines : List String) : Editor where
  lines := lines
  dependencies := findSection? lines SectionKind.dependencies.name
  devDependencies := findSection? lines SectionKind.devDependencies.name
  lineEnd := if lines.any endsInReturn then "\r" else ""

def ofText (text : String) : Editor := ofLines (Text.splitLines text)

def text (e : Editor) : String := Text.joinLines e.lines

def sectionAt (e : Editor) : SectionKind → Option Section
  | .dependencies => e.dependencies
  | .devDependencies => e.devDependencies

/-- Finds the tracked sections anew. -/
def rescan (e : Editor) : Editor :=
  { e with
    dependencies := findSection? e.lines SectionKind.dependencies.name
    devDependencies := findSection? e.lines SectionKind.devDependencies.name }

/-- A section after `count` lines came in at `position`, inside of it if it is the `owner`. -/
def grow (owner : Bool) (position count : Nat) (s : Section) : Section :=
  if owner then ⟨s.header, s.last + count⟩
  else if position ≤ s.header then ⟨s.header + count, s.last + count⟩
  else s

/-- A section after `count` lines went out at `position`. -/
def shrink (owner : Bool) (position count : Nat) (s : Section) : Section :=
  if owner then ⟨s.header, s.last - count⟩
  else if position ≤ s.header then ⟨s.header - count, s.last - count⟩
  else s

/-- Cuts lines of the section `owner` out. -/
def delete (e : Editor) (x : Extent) (owner : SectionKind) : Editor :=
  { e with
    lines := e.lines.take x.start ++ e.lines.drop x.stop
    dependencies := e.dependencies.map (shrink (owner == .dependencies) x.start x.size)
    devDependencies := e.devDependencies.map (shrink (owner == .devDependencies) x.start x.size) }

/-- Puts a block into the section `owner`, before the line `position`. -/
def insert (e : Editor) (position : Nat) (block : List String) (owner : SectionKind) : Editor :=
  { e with
    lines := e.lines.take position ++ block ++ e.lines.drop position
    dependencies := e.dependencies.map (grow (owner == .dependencies) position block.length)
    devDependencies :=
      e.devDependencies.map (grow (owner == .devDependencies) position block.length) }

/-- Where a new header goes: behind the entries of a section, or at the end of the text, in front of
the empty line that a final line feed leaves. -/
def headerPlace (e : Editor) (after : Option Section) : Nat :=
  match after with
  | some s => s.entriesEnd e.lines
  | none => if e.lines.getLast? == some "" then e.lines.length - 1 else e.lines.length

/-- Writes an empty line and the header of a section called `name`. -/
def writeHeader (e : Editor) (name : String) (after : Option Section) : Editor :=
  let place := e.headerPlace after
  let header := [e.lineEnd, name ++ ":" ++ e.lineEnd]
  rescan { e with lines := e.lines.take place ++ header ++ e.lines.drop place }

def createSection (e : Editor) (kind : SectionKind) (after : Option Section) : Editor :=
  e.writeHeader kind.name after

def locate? (e : Editor) (kind : SectionKind) (name : String) : Option Extent :=
  (e.sectionAt kind).bind fun s => s.locate? e.lines name

/-- Cuts the block of a package out of a section; gives the block too. -/
def cut? (e : Editor) (kind : SectionKind) (name : String) : Option (List String × Editor) :=
  (e.locate? kind name).map fun x => (x.lines e.lines, e.delete x kind)

/-- Removes a package from a section; says whether it was there. -/
def removeFrom (e : Editor) (kind : SectionKind) (name : String) : Bool × Editor :=
  match e.cut? kind name with
  | some (_, e') => (true, e')
  | none => (false, e)

/-- Removes a package from both sections; says whether it was in one of them. -/
def remove (e : Editor) (name : String) : Bool × Editor :=
  let (first, e) := e.removeFrom .dependencies name
  let (second, e) := e.removeFrom .devDependencies name
  (first || second, e)

/-- The place for a package in a section: before the first entry whose name is greater, or behind
the last one. -/
def insertionPlace (e : Editor) (s : Section) (name : String) : Nat :=
  match (s.entries e.lines).find? fun entry => decide (name < entry.name) with
  | some entry => entry.extent.start
  | none => s.entriesEnd e.lines

/-- Puts the block of a package into a section, if there is one. -/
def paste (e : Editor) (kind : SectionKind) (name : String) (block : List String) : Editor :=
  match e.sectionAt kind with
  | some s => e.insert (e.insertionPlace s name) block kind
  | none => e

/-- Moves the block of a package to its place in another section, which is created behind the
entries of the first one if it does not exist; says whether the package was there. -/
def move (e : Editor) (name : String) (source target : SectionKind) : Bool × Editor :=
  match e.cut? source name with
  | none => (false, e)
  | some (block, e) =>
    let e := if (e.sectionAt target).isSome then e else e.createSection target (e.sectionAt source)
    (true, e.paste target name block)

/-- Carries out one change; says whether it took effect. -/
def perform (e : Editor) (c : Change) : Bool × Editor :=
  match c.action with
  | .remove => e.remove c.package
  | .moveTo target => e.move c.package target.other target
  | .removeFrom source => e.removeFrom source c.package

/-- Carries out the changes in order; gives those that took effect. -/
def apply (e : Editor) : List Change → List Change × Editor
  | [] => ([], e)
  | c :: cs =>
    let (done, e) := e.perform c
    let (rest, e) := e.apply cs
    (if done then c :: rest else rest, e)

/-! ## Sections given by name

Only the tracked sections can be edited. Asked to open another one, the editor writes its header
and then finds that it does not keep track of it. -/

/-- The name of a section that is not tracked. -/
structure UnknownSection where
  name : String
  deriving DecidableEq, Repr

def sectionNamed (e : Editor) (name : String) : Option Section :=
  (SectionKind.ofName? name).bind e.sectionAt

def createNamed (e : Editor) (name : String) (after : Option Section) :
    Except UnknownSection Section × Editor :=
  let e := e.writeHeader name after
  match e.sectionNamed name with
  | some s => (.ok s, e)
  | none => (.error ⟨name⟩, e)

def removeFromNamed (e : Editor) (sectionName name : String) : Bool × Editor :=
  match SectionKind.ofName? sectionName with
  | some kind => e.removeFrom kind name
  | none => (false, e)

def moveNamed (e : Editor) (name source target : String) : Except UnknownSection Bool × Editor :=
  match SectionKind.ofName? source with
  | none => (.ok false, e)
  | some source =>
    match SectionKind.ofName? target with
    | some target =>
      let (done, e) := e.move name source target
      (.ok done, e)
    | none =>
      match e.cut? source name with
      | none => (.ok false, e)
      | some (_, e) => (.error ⟨target⟩, e.writeHeader target (e.sectionAt source))

end Editor
end PubspecTidy.Manifest

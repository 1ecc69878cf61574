import PubspecTidy.Manifest.Line

/-!
# Sections and their entries

A section runs from its header to the line before the next header, or to the end. Inside it, an
entry is a declaration together with the deeper lines after it; the entries stand one after the
other, and blank lines between them belong to none.
-/
namespace PubspecTidy.Manifest

/-- The lines from `start` up to, but not including, `stop`. -/
structure Extent where
  start : Nat
  stop : Nat
  deriving DecidableEq, Repr

namespace Extent

def size (x : Extent) : Nat := x.stop - x.start

def lines (x : Extent) (all : List String) : List String := (all.drop x.start).take x.size

end Extent

/-- The lines from the header to the last line of the section, both included. -/
structure Section where
  header : Nat
  last : Nat
  deriving DecidableEq, Repr

structure Entry where
  name : String
  extent : Extent
  deriving DecidableEq, Repr

/-- The first line that is not blank. -/
def firstContent? : List String → Option String
  | [] => none
  | line :: rest => if isBlankLine line then firstContent? rest else some line

/-- How many of the lines after a declaration belong to it: those indented deeper, and a blank line
only where a deeper one is the next that is not blank. -/
def openLines (base : Nat) : List String → Nat
  | [] => 0
  | line :: rest =>
    if isBlankLine line then
      match firstContent? rest with
      | some next => if base < indentation next then openLines base rest + 1 else 0
      | none => 0
    else if base < indentation line then openLines base rest + 1 else 0

/-- The lines from `start` to `last`, both included. -/
def linesBetween (lines : List String) (start last : Nat) : List String :=
  (lines.drop start).take (last + 1 - start)

/-- The block of the declaration on line `start`, which ends at line `last` at the latest; there is
none past the end of the lines. -/
def blockAt? (lines : List String) (start last : Nat) : Option Extent :=
  lines[start]?.map fun line =>
    ⟨start, start + 1 + openLines (indentation line) (linesBetween lines (start + 1) last)⟩

/-- How many lines the block has whose declaration stands `back` lines before the end. After it, all
lines are gone through once more from the first one on, up to line `last`. -/
def blockSizeFromEnd? (lines : List String) (back : Nat) (last : Int) : Option Nat :=
  if lines.length < back then none
  else
    let around := lines.drop (lines.length - back) ++ lines
    (blockAt? around 0 (last + back).toNat).map (·.size)

/-- The section whose header is the first one called `name`, with `index` lines before the given
ones. -/
def findFrom (name : String) (index : Nat) : List String → Option Section
  | [] => none
  | line :: rest =>
    if isHeaderOf name line then some ⟨index, index + (rest.takeWhile (!isHeader ·)).length⟩
    else findFrom name (index + 1) rest

def findSection? (lines : List String) (name : String) : Option Section := findFrom name 0 lines

namespace Section

/-- The lines after the header. -/
def body (s : Section) (lines : List String) : List String :=
  linesBetween lines (s.header + 1) s.last

/-- The entries among lines that start at `index`, of which the first `skip` belong to an entry
before them. -/
def entriesFrom (index : Nat) : Nat → List String → List Entry
  | _, [] => []
  | skip + 1, _ :: rest => entriesFrom (index + 1) skip rest
  | 0, line :: rest =>
    if isDependencyLine line then
      let inner := openLines (indentation line) rest
      let later := entriesFrom (index + 1) inner rest
      match declaredName? line with
      | some name => ⟨name, ⟨index, index + 1 + inner⟩⟩ :: later
      | none => later
    else entriesFrom (index + 1) 0 rest

/-- The declarations of the section, each with its block. -/
def entries (s : Section) (lines : List String) : List Entry :=
  entriesFrom (s.header + 1) 0 (s.body lines)

/-- The block of the first entry called `name`. -/
def locate? (s : Section) (lines : List String) (name : String) : Option Extent :=
  ((s.entries lines).find? (·.name == name)).map (·.extent)

/-- The line after the last entry, or after the header if there is no entry. -/
def entriesEnd (s : Section) (lines : List String) : Nat :=
  match (s.entries lines).getLast? with
  | some e => e.extent.stop
  | none => s.header + 1

end Section
end PubspecTidy.Manifest

import PubspecTidy.Grouping.Basic
import PubspecTidy.Manifest.Section

/-!
# Sections of a manifest by category

A grouped section shows a comment with the category above each group and an empty line between
groups. A package keeps the lines that it has in the manifest; one without lines there is written
as its name and version. In a manifest, only the lines from the first entry of a section to its
last one are replaced.
-/
namespace PubspecTidy.Grouping

open Manifest (Section SectionKind findSection?)

/-- How the entries of a section are written. -/
structure Entries where
  /-- The lines of each entry. -/
  blocks : Table String (List String)
  indent : String
  deriving DecidableEq, Repr

def usualIndent : String := "  "

/-- The blanks that a line starts with. -/
def leadingBlanks (line : String) : String := String.ofList (line.toList.takeWhile Text.isBlank)

/-- The indent of the first entry, unless it is empty or there is no entry. -/
def indentOf (blocks : List (List String)) : String :=
  match (blocks.head?.bind List.head?).map leadingBlanks with
  | some indent => if indent.isEmpty then usualIndent else indent
  | none => usualIndent

/-- The entries of a section; a name that comes twice keeps its first place and its last lines. -/
def entriesOf (lines : List String) : Option Section → Entries
  | none => ⟨[], usualIndent⟩
  | some s =>
    let found := (s.entries lines).map fun e => (e.name, e.extent.lines lines)
    ⟨Table.ofList found, indentOf (found.map (·.2))⟩

/-- The lines of one package. -/
def packageLines (es : Entries) (lineEnd : String) (f : Finding) : List String :=
  match Table.get? es.blocks f.name with
  | some (line :: lines) => line :: lines
  | _ => [es.indent ++ f.name ++ ": " ++ f.version ++ lineEnd]

/-- A group under its category. -/
def groupLines (es : Entries) (lineEnd category : String) (group : List Finding) : List String :=
  (es.indent ++ "# " ++ category ++ lineEnd) :: group.flatMap (packageLines es lineEnd)

/-- Runs of lines with an empty line between any two of them. -/
def separate (lineEnd : String) : List (List String) → List String
  | [] => []
  | [lines] => lines
  | lines :: rest => lines ++ lineEnd :: separate lineEnd rest

/-- The categories that have a group. -/
def shown (g : Grouping) : List String := g.order.filter fun c => !(g.group c).isEmpty

/-- All groups in their order. -/
def lines (g : Grouping) (es : Entries) (lineEnd : String) : List String :=
  separate lineEnd (g.shown.map fun c => groupLines es lineEnd c (g.group c))

/-- A section on its own, if it has groups. -/
def sectionPreview (all : List String) (kind : SectionKind) (g : Grouping) : List (List String) :=
  if g.isEmpty then []
  else
    let es := entriesOf all (findSection? all kind.name)
    [(kind.name ++ ":") :: g.lines es ""]

/-- Both sections on their own; the lines of a manifest, if there is one, show how its entries are
written. -/
def preview (manifest : Option String) (dependencies dev : Grouping) : String :=
  let all := (manifest.map Text.splitLines).getD []
  let sections := sectionPreview all .dependencies dependencies ++ sectionPreview all .devDependencies dev
  if sections.isEmpty then "" else Text.joinLines (separate "" sections) ++ "\n"

/-- The lines that replace the entries of a section: first the entries that are in no group. -/
def sectionBody (all : List String) (s : Section) (g : Grouping) : List String :=
  let es := entriesOf all (some s)
  let lineEnd := if Text.endsWith (all[s.header]?.getD "") "\r" then "\r" else ""
  let grouped := g.packages.map (·.name)
  let others := (es.blocks.filter fun e => !grouped.contains e.1).flatMap (·.2)
  (if others.isEmpty then [] else others ++ [lineEnd]) ++ g.lines es lineEnd

/-- Regroups one section of a manifest, if it exists and there are groups for it. -/
def regroupSection (kind : SectionKind) (g : Grouping) (all : List String) : List String :=
  match findSection? all kind.name with
  | none => all
  | some s =>
    if g.isEmpty then all
    else all.take (s.header + 1) ++ sectionBody all s g ++ all.drop (s.entriesEnd all)

/-- Regroups both sections of a manifest. -/
def regroup (manifest : String) (dependencies dev : Grouping) : String :=
  Text.joinLines <| regroupSection .dependencies dependencies <|
    regroupSection .devDependencies dev (Text.splitLines manifest)

end PubspecTidy.Grouping

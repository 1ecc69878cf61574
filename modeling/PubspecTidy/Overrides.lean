import PubspecTidy.FileTree
import PubspecTidy.Text.Lines
import PubspecTidy.Yaml.Printer
import PubspecTidy.Yaml.Text

/-!
# Overrides of categories

A YAML mapping from packages to categories. A file that is missing, that is no YAML or that holds no
mapping sets no overrides at all.
-/
namespace PubspecTidy

abbrev Overrides := Table String String

/-- Why a file of overrides cannot be used. -/
inductive OverridesError where
  | notText
  | document (f : Yaml.Fault)
  deriving DecidableEq, Repr

namespace Overrides

open Yaml (Document Fault)

def fileName : String := "group-overrides.yaml"

/-- The text of a package or category. -/
def textOf (doc : Document) (v : Yaml.Value) : Except Fault String :=
  match doc.text? v with
  | some text => .ok text
  | none => .error .badValue

/-- The overrides that a text holds. Keys that are shown alike count as one, with the last value. -/
def read (text : String) : Except Fault (Option Overrides) :=
  match Document.read text with
  | .error .malformed => .ok none
  | .error f => .error f
  | .ok doc =>
    match doc.entries? doc.root with
    | none => .ok none
    | some entries => do
      let texts ← entries.mapM fun e => return (← textOf doc e.1, ← textOf doc e.2)
      return some (Table.ofList texts)

/-- The overrides in a file. -/
def load (t : FileTree) (p : FilePath) : Except OverridesError (Option Overrides) :=
  match t.file? p with
  | none => .ok none
  | some f =>
    match decodeText? f.bytes with
    | none => .error .notText
    | some text =>
      match read (Text.withUnifiedNewlines text) with
      | .ok found => .ok found
      | .error fault => .error (.document fault)

/-- What stands above the overrides in their file. -/
def heading : String := "# Package category overrides\n# Format: package_name: Category Name\n\n"

/-- The overrides as a document, ordered by package. -/
def write (o : Overrides) : String :=
  heading ++ Yaml.blockText (o.mergeSort fun a b => decide (¬ b.1 < a.1))

end Overrides
end PubspecTidy

import PubspecTidy.FileTree.Search
import PubspecTidy.Usage.Import
import PubspecTidy.Usage.Record

/-!
# Imports of a source tree

The files below the roots whose name matches a star and the ending are read; a file that is no valid
text is passed over. Line ends count as line feeds, and the role of a file is told by its path in
the project. A file that is found twice on the same path counts no more than once.
-/
namespace PubspecTidy.Usage

/-- The directories that hold sources. -/
def sourceRoots : List String := ["lib/", "test/", "bin/", "tool/"]

def sourceEnding : String := ".dart"

/-- The files of a project below the roots, by their paths in the project. An ending that makes no
pattern fails as soon as there is a root to be searched. -/
def sourceFiles? (t : FileTree) (project : FilePath) (roots : List FilePath) (ending : String) :
    Option (List (FilePath × File)) :=
  let present := (roots.map (project ++ ·)).filter t.isDirectory
  if present.isEmpty then some []
  else (FileTree.searchSteps? ("*" ++ ending)).map fun steps =>
    (present.flatMap (t.search (.everywhere :: steps))).filterMap fun p =>
      (t.file? p).map fun f => (p.drop project.length, f)

/-- Notes the imports of one file. -/
def scanFile (usages : Usages) (p : FilePath) (f : File) : Usages :=
  match decodeText? f.bytes with
  | some text => markAll usages (Role.ofPath? p.text) (imports (Text.withUnifiedNewlines text))
  | none => usages

/-- Where each package is imported. -/
def scan? (t : FileTree) (project : FilePath) (roots : List FilePath) (ending : String) :
    Option Usages :=
  (sourceFiles? t project roots ending).map (·.foldl (fun usages e => scanFile usages e.1 e.2) [])

end PubspecTidy.Usage

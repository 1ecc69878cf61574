import PubspecTidy.Analysis
import PubspecTidy.Usage.Scan

/-!
# Projects

A project is a directory with a manifest and sources. Its manifest is read as it is, without any
change to its line ends.
-/
namespace PubspecTidy

/-- Why a manifest has no text. -/
inductive ReadError where
  | notFound (name parent : String)
  | notText
  | unreadable (message : String)
  deriving DecidableEq, Repr

def ReadError.message : ReadError → String
  | notFound name parent => name ++ " not found in " ++ parent
  | notText => "not valid UTF-8"
  | unreadable message => message

/-- Why a project cannot be analysed. -/
inductive AnalysisError where
  | manifest (e : ReadError)
  | document (f : Yaml.Fault)
  /-- The ending of the sources makes no pattern. -/
  | ending
  deriving DecidableEq, Repr

def manifestName : String := "pubspec.yaml"

/-- Reads a manifest. -/
def readManifest (t : FileTree) (p : FilePath) : Except ReadError String :=
  if !t.isFile p then .error (.notFound p.name (t.shown p.parent))
  else
    match t.read p with
    | .error e => .error (.unreadable (e.message (t.shown p)))
    | .ok bytes =>
      match decodeText? bytes with
      | some text => .ok text
      | none => .error .notText

/-- The text of an error that arose when a manifest was written. -/
def writeMessage (e : FileError) (shown : String) : String :=
  "cannot write " ++ shown ++ ": " ++ e.message shown

/-- Why a text was not written. -/
inductive WriteError where
  | refused (message : String)
  /-- The text holds a half of a surrogate pair. The file is left empty. -/
  | unencodable
  deriving DecidableEq, Repr

/-- Writes a manifest. -/
def writeManifest (p : FilePath) (now : Int) (t : FileTree) (text : String) :
    Option WriteError × FileTree :=
  let isEncodable := !Text.holdsHalf text.toList
  match t.write p (encodeText (if isEncodable then text else "")) now with
  | .ok t => (if isEncodable then none else some .unencodable, t)
  | .error e => (some (.refused (writeMessage e (t.shown p))), t)

/-- Where a project lies and what belongs to it. -/
structure Project where
  root : FilePath
  manifest : String := manifestName
  sourceRoots : List FilePath := Usage.sourceRoots.map FilePath.ofText
  ending : String := Usage.sourceEnding

namespace Project

def manifestPath (p : Project) : FilePath := p.root ++ FilePath.ofText p.manifest

/-- Reads the manifest and the sources and holds them against each other. -/
def analyze (p : Project) (t : FileTree) : Except AnalysisError Analysis :=
  match readManifest t p.manifestPath with
  | .error e => .error (.manifest e)
  | .ok text =>
    match Manifest.readDeclarations text with
    | .error f => .error (.document f)
    | .ok ds =>
      if Analysis.areShown (ds.dependencies ++ ds.devDependencies) then
        match Usage.scan? t p.root p.sourceRoots p.ending with
        | some usages => .ok (Analysis.classify ds.dependencies ds.devDependencies usages)
        | none => .error .ending
      else .error (.document .badValue)

end Project
end PubspecTidy

import PubspecTidy.Manifest.Change
import PubspecTidy.Manifest.Section
import PubspecTidy.Text.Lines
import PubspecTidy.Yaml.Printer
import PubspecTidy.Yaml.Text

/-!
# Declared dependencies

What a manifest declares in its two sections, in the order of the document. A version is either a
text or a mapping; a mapping keeps the lines that it stands on, as far as they can be located.
-/
namespace PubspecTidy.Manifest

/-- What a declaration says about the version. -/
inductive Spec where
  /-- A constraint; without one any version will do. -/
  | plain (text : Option String)
  /-- A mapping, as one line of text and in the lines of the manifest. There is no text for one that
  holds too long a number. -/
  | structured (text : Option String) (lines : List String)
  deriving DecidableEq, Repr

namespace Spec

def version? : Spec → Option String
  | plain (some text) => some text
  | plain none => some "any"
  | structured text _ => text

end Spec

structure Declaration where
  name : String
  spec : Spec
  kind : SectionKind
  deriving DecidableEq, Repr

namespace Declaration

/-- Whether there is a text for the version. -/
def isShown (d : Declaration) : Bool := d.spec.version?.isSome

def version (d : Declaration) : String := d.spec.version?.getD ""

end Declaration

/-- The declarations of both sections. -/
structure Declarations where
  dependencies : List Declaration
  devDependencies : List Declaration
  deriving DecidableEq, Repr

open Yaml (Document Fault Value)

/-- A manifest as a document, with the entries of its top level; a document that is no mapping has
none. -/
def load (text : String) : Except Fault (Document × List (Value × Value)) := do
  let doc ← Document.read text
  return (doc, (doc.entries? doc.root).getD [])

/-- The lines of a package in a section, if they can be located. -/
def blockLines (lines : List String) (s : Option Section) (name : String) : List String :=
  match s.bind fun s => s.locate? lines name with
  | some x => x.lines lines
  | none => []

/-- The text of a value that has to have one. -/
def shownText (doc : Document) (v : Value) : Except Fault String :=
  match doc.text? v with
  | some text => .ok text
  | none => .error .badValue

def specOf (doc : Document) (block : String → List String) (name : String) (v : Value) :
    Except Fault Spec :=
  match doc.entries? v with
  | some _ => .ok (.structured (Yaml.flowText? doc v) (block name))
  | none => if v = .null then .ok (.plain none) else (shownText doc v).map fun s => .plain (some s)

/-- The declarations of one section, if it is a mapping. -/
def declaredIn (doc : Document) (top : List (Value × Value)) (lines : List String)
    (kind : SectionKind) : Except Fault (List Declaration) :=
  let block := blockLines lines (findSection? lines kind.name)
  match (Document.field? top kind.name).bind doc.entries? with
  | none => .ok []
  | some entries => entries.mapM fun e => do
    let name ← shownText doc e.1
    return ⟨name, ← specOf doc block name e.2, kind⟩

/-- Reads the declarations of a manifest. -/
def readDeclarations (text : String) : Except Fault Declarations := do
  let (doc, top) ← load text
  let lines := Text.splitLines text
  return ⟨← declaredIn doc top lines .dependencies, ← declaredIn doc top lines .devDependencies⟩

end PubspecTidy.Manifest

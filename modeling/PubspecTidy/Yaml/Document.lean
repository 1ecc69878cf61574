import PubspecTidy.Yaml.Formation

/-!
# YAML documents

A document is a value with the cells that it refers to.
-/
namespace PubspecTidy.Yaml

structure Document where
  cells : Table Nat Cell
  root : Value
  deriving DecidableEq, Repr

namespace Document

def ofGraph (g : Graph) : Except Fault Document := do
  match g.root with
  | none => return ⟨[], .null⟩
  | some id =>
    let form : Form Document := do
      let root ← Form.form id
      return ⟨← Form.enterAll g.nodes.length, root⟩
    (·.1) <$> form.run ⟨g.nodes, [], []⟩

/-- Reads a text; one without a document gives null. -/
def read (text : String) : Except Fault Document := do ofGraph (← Graph.ofText text)

/-- The entries of a value that is a mapping. -/
def entries? (doc : Document) (v : Value) : Option (List (Value × Value)) :=
  match v with
  | .ref id =>
    match Table.get? doc.cells id with
    | some (.mapping entries) => some entries
    | _ => none
  | _ => none

/-- The value under a text in a list of entries. -/
def field? (entries : List (Value × Value)) (name : String) : Option Value :=
  (entries.find? fun e => e.1 = .string name).map (·.2)

/-- The cells that can be reached from some, each once. Every cell is opened at most once, so the
number of all values is enough fuel. -/
def reach (doc : Document) : Nat → List Nat → List Nat → List Nat
  | fuel + 1, id :: waiting, seen =>
    if seen.contains id then reach doc fuel waiting seen
    else
      let inner := ((Table.get? doc.cells id).map Cell.values).getD []
      reach doc fuel (inner.flatMap Value.refs ++ waiting) (id :: seen)
  | _, _, seen => seen

/-- The number of values in all cells. -/
def extent (doc : Document) : Nat := doc.cells.foldl (fun n c => n + c.2.values.length) 1

/-- Whether nothing in a value is too long to be written. -/
def isWritable (doc : Document) (v : Value) : Bool :=
  v.isWritable && (doc.reach doc.extent v.refs []).all fun id =>
    (((Table.get? doc.cells id).map Cell.values).getD []).all Value.isWritable

end Document
end PubspecTidy.Yaml

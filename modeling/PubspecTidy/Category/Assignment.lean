import PubspecTidy.Category.Priority
import PubspecTidy.Json.Text
import PubspecTidy.Number.Reader
import PubspecTidy.Time.Iso

/-!
# Categories assigned to a package

An assignment says which categories a package has, who says so, how sure that is and since when it
is known. As a JSON document it may leave out everything but the name and the categories.
-/
namespace PubspecTidy.Category

open Json (Value)
open Number (Double)
open Time (Stamp)

structure Assignment where
  name : String
  categories : List String
  primary : String
  source : String
  confidence : Double
  fetched : Stamp
  deriving DecidableEq, Repr

/-- Why a JSON value is no assignment. -/
inductive AssignmentFault where
  | notObject
  | missing (field : String)
  /-- A field holds a value of a kind that does not fit. -/
  | wrongKind
  /-- A text is no time or no number. -/
  | unreadable
  /-- The confidence is an integer beyond all floating-point numbers. -/
  | tooLarge
  deriving DecidableEq, Repr

namespace Assignment

/-- Whether all texts of an assignment have an encoding. -/
def isEncodable (a : Assignment) : Bool :=
  (a.name :: a.primary :: a.source :: a.categories).all fun text => !Text.holdsHalf text.toList

/-- Whether a value counts as nothing: null, false, zero and whatever is empty. -/
def isVoid : Value → Bool
  | .null => true
  | .bool b => !b
  | .int n => n == 0
  | .float (.finite _ m _) => m == 0
  | .float _ => false
  | .string s => s.isEmpty
  | .array items => items.isEmpty
  | .object fields => fields.isEmpty

/-- The field of a document, unless it is missing or counts as nothing. -/
def filled? (fields : Table String Value) (name : String) : Option Value :=
  (Table.get? fields name).filter (!isVoid ·)

/-- When the categories were fetched; now, if the document does not say. -/
def readFetched (now : Stamp) (fields : Table String Value) : Except AssignmentFault Stamp :=
  match filled? fields "fetchedAt" with
  | none => .ok now.orUniversal
  | some (.string text) =>
    match Time.ofIso? text with
    | some t => .ok t.orUniversal
    | none => .error .unreadable
  | some _ => .error .wrongKind

/-- The texts that a value holds: its items, its characters or the names of its fields. -/
def textsOf? : Value → Option (List String)
  | .array items => some (items.map Value.text)
  | .string s => some (s.toList.map fun c => String.ofList [c])
  | .object fields => some (Table.keys fields)
  | _ => none

def readCategories (fields : Table String Value) : Except AssignmentFault (List String) :=
  match Table.get? fields "categories" with
  | none => .error (.missing "categories")
  | some v =>
    match textsOf? v with
    | some texts => .ok texts
    | none => .error .wrongKind

def readName (fields : Table String Value) : Except AssignmentFault String :=
  match Table.get? fields "name" with
  | none => .error (.missing "name")
  | some v => .ok v.text

/-- The confidence of a document that names none: nine tenths. -/
def usualConfidence : Double := .ofDecimal false 9 (-1)

def readConfidence (fields : Table String Value) : Except AssignmentFault Double :=
  match Table.get? fields "confidence" with
  | none => .ok usualConfidence
  | some (.float x) => .ok x
  | some (.int n) =>
    match Double.ofInt? n with
    | some x => .ok x
    | none => .error .tooLarge
  | some (.bool b) => .ok (.ofInt (if b then 1 else 0))
  | some (.string text) =>
    match Number.readDouble? text.toList with
    | some x => .ok x
    | none => .error .unreadable
  | some _ => .error .wrongKind

/-- What stands for the source if the document names none. -/
def remoteSource : String := "remote"

/-- Reads an assignment. Of several faults the one in the time of fetching comes first, then those
in the categories, the name and the confidence. -/
def ofJson (now : Stamp) (v : Value) : Except AssignmentFault Assignment :=
  match v.fields? with
  | none => .error .notObject
  | some fields => do
    let fetched ← readFetched now fields
    let categories ← readCategories fields
    let name ← readName fields
    let confidence ← readConfidence fields
    return {
      name, categories
      primary :=
        match filled? fields "primaryCategory" with
        | some p => p.text
        | none => primaryOf categories
      source :=
        match Table.get? fields "source" with
        | some s => s.text
        | none => remoteSource
      confidence, fetched }

def toJson (a : Assignment) : Value :=
  .object
    [("name", .string a.name), ("categories", .ofStrings a.categories),
     ("primaryCategory", .string a.primary), ("source", .string a.source),
     ("confidence", .float a.confidence), ("fetchedAt", .string a.fetched.iso)]

/-- The assignments among the given values. One that cannot be read is left out, except that a
number that is too large makes all of them unreadable. -/
def ofItems (now : Stamp) : List Value → Except AssignmentFault (List Assignment)
  | [] => .ok []
  | v :: vs =>
    match ofJson now v with
    | .ok a => (ofItems now vs).map (a :: ·)
    | .error .tooLarge => .error .tooLarge
    | .error _ => ofItems now vs

/-- The assignments in an answer of the category service. -/
def ofAnswer (now : Stamp) (answer : Value) : Except AssignmentFault (List Assignment) :=
  match answer.field? "packages" with
  | some (.array items) => ofItems now items
  | _ => .ok []

end Assignment
end PubspecTidy.Category

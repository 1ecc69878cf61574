import PubspecTidy.Number.Layout
import PubspecTidy.Yaml.Document

/-!
# What is written of a YAML value

A value as it is to be written: the text and the tag of every scalar, and for each collection or
stamp that stands in several places an anchor at the first of them and an alias at the others.
Anchors are numbered in the order of the first aliases.
-/
namespace PubspecTidy.Yaml

/-- A document to be written. -/
inductive Outline where
  | alias (name : String)
  | scalar (anchor : Option String) (tag : Tag) (text : String) (block : Bool)
  | sequence (anchor : Option String) (items : List Outline)
  | mapping (anchor : Option String) (tag : Tag) (entries : List (Outline × Outline))

namespace Outline

def sextetChar (n : Nat) : Char :=
  ("ABCDEFGHIJKLMNOPQRSTUVWXYZabcdefghijklmnopqrstuvwxyz0123456789+/".toList).getD n 'A'

/-- Bytes in base 64. -/
def base64 : List UInt8 → List Char
  | [] => []
  | [a] => [sextetChar (a.toNat / 4), sextetChar (a.toNat % 4 * 16), '=', '=']
  | [a, b] =>
    [sextetChar (a.toNat / 4), sextetChar (a.toNat % 4 * 16 + b.toNat / 16),
     sextetChar (b.toNat % 16 * 4), '=']
  | a :: b :: c :: rest =>
    sextetChar (a.toNat / 4) :: sextetChar (a.toNat % 4 * 16 + b.toNat / 16)
      :: sextetChar (b.toNat % 16 * 4 + c.toNat / 64) :: sextetChar (c.toNat % 64) :: base64 rest

/-- Lines of at most `width` characters, each with its line end. -/
def inLines (width : Nat) : Nat → List Char → List Char
  | 0, _ => []
  | fuel + 1, cs =>
    if cs.isEmpty then [] else cs.take width ++ '\n' :: inLines width fuel (cs.drop width)

def bytesText (bs : List UInt8) : String :=
  let cs := base64 bs
  String.ofList (inLines 76 cs.length cs)

/-- A scalar value. -/
def leaf (anchor : Option String) : Value → Outline
  | .null => .scalar anchor .null "null" false
  | .bool b => .scalar anchor .bool (if b then "true" else "false") false
  | .int n => .scalar anchor .int (Text.ofInt n) false
  | .float x => .scalar anchor .float (Number.Layout.yaml.text x) false
  | .nan _ => .scalar anchor .float (Number.Layout.yaml.text .nan) false
  | .string s => .scalar anchor .text s false
  | .bytes bs => .scalar anchor .binary (bytesText bs) true
  | .date _ d => .scalar anchor .timestamp (String.ofList (Time.Stamp.dateText d)) false
  | .stamp _ t => .scalar anchor .timestamp (t.textWith ' ') false
  | .ref _ => .scalar anchor .null "null" false

/-- The number of the node of a value that can stand in several places. -/
def identity? : Value → Option Nat
  | .date id _ => some id
  | .stamp id _ => some id
  | .ref id => some id
  | _ => none

/-- The nodes met so far, and those of them met again, in the order in which that happened. -/
structure Visits where
  seen : List Nat
  shared : List Nat

/-- Notes a visit of a node; says whether it is the first one. -/
def Visits.visit (s : Visits) (id : Nat) : Bool × Visits :=
  if s.seen.contains id then
    (false, if s.shared.contains id then s else { s with shared := s.shared ++ [id] })
  else (true, { s with seen := id :: s.seen })

/-- Walks through a value and what it refers to. Each cell is entered once, so the number of cells
is enough fuel for the depth. -/
def walk (cells : Table Nat Cell) : Nat → Value → Visits → Visits
  | 0, _, s => s
  | fuel + 1, v, s =>
    match identity? v with
    | none => s
    | some id =>
      let (first, s) := s.visit id
      if !first then s
      else
        match v, Table.get? cells id with
        | .ref _, some cell => cell.values.foldl (fun s child => walk cells fuel child s) s
        | _, _ => s

def anchorName (n : Nat) : String := "id" ++ String.ofList (Text.padDigits 3 n)

/-- The anchor of a node that stands in several places. -/
def anchorOf? (shared : List Nat) (id : Nat) : Option String :=
  if shared.contains id then some (anchorName (shared.idxOf id + 1)) else none

mutual
/-- The outline of a value, with the nodes written before it. -/
def build (cells : Table Nat Cell) (shared : List Nat) :
    Nat → Value → List Nat → Outline × List Nat
  | 0, v, seen => (leaf none v, seen)
  | fuel + 1, v, seen =>
    match identity? v with
    | none => (leaf none v, seen)
    | some id =>
      let anchor := anchorOf? shared id
      if seen.contains id then (.alias (anchor.getD ""), seen)
      else
        let seen := id :: seen
        match v, Table.get? cells id with
        | .ref _, some (.list items) =>
          let (items, seen) := buildItems cells shared fuel items seen
          (.sequence anchor items, seen)
        | .ref _, some (.pairs entries) =>
          let (entries, seen) := buildEntries cells shared fuel entries seen
          (.sequence anchor (entries.map fun e => .sequence none [e.1, e.2]), seen)
        | .ref _, some (.set members) =>
          let (entries, seen) := buildEntries cells shared fuel (members.map (·, .null)) seen
          (.mapping anchor .set entries, seen)
        | .ref _, some (.mapping entries) =>
          let (entries, seen) := buildEntries cells shared fuel entries seen
          (.mapping anchor .mapping entries, seen)
        | _, _ => (leaf anchor v, seen)

def buildItems (cells : Table Nat Cell) (shared : List Nat) :
    Nat → List Value → List Nat → List Outline × List Nat
  | 0, _, seen => ([], seen)
  | _, [], seen => ([], seen)
  | fuel + 1, v :: vs, seen =>
    let (o, seen) := build cells shared fuel v seen
    let (os, seen) := buildItems cells shared fuel vs seen
    (o :: os, seen)

def buildEntries (cells : Table Nat Cell) (shared : List Nat) :
    Nat → List (Value × Value) → List Nat → List (Outline × Outline) × List Nat
  | 0, _, seen => ([], seen)
  | _, [], seen => ([], seen)
  | fuel + 1, (k, v) :: rest, seen =>
    let (k, seen) := build cells shared fuel k seen
    let (v, seen) := build cells shared fuel v seen
    let (rest, seen) := buildEntries cells shared fuel rest seen
    ((k, v) :: rest, seen)
end

/-- The number of values in the cells, which bounds the depth of an outline. -/
def extent (cells : Table Nat Cell) : Nat :=
  cells.foldl (fun n c => n + c.2.values.length + 2) 2

def ofValue (doc : Document) (v : Value) : Outline :=
  let fuel := extent doc.cells
  let visits := walk doc.cells fuel v ⟨[], []⟩
  (build doc.cells visits.shared fuel v []).1

end Outline
end PubspecTidy.Yaml

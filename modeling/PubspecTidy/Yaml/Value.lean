import PubspecTidy.Number.Reader
import PubspecTidy.Table
import PubspecTidy.Time.Stamp

/-!
# YAML values

A scalar node stands for a value, a collection for a cell that other values refer to by its number,
since one collection may stand in several places.
-/
namespace PubspecTidy.Yaml

open Number (Double)
open Time (Date Stamp)

inductive Value where
  | null
  | bool (b : Bool)
  | int (n : Int)
  | float (x : Double)
  /-- What is no number, with the number of its node; each is equal to itself alone. -/
  | nan (id : Nat)
  | string (s : String)
  | bytes (bs : List UInt8)
  /-- A date, with the number of its node. -/
  | date (id : Nat) (d : Date)
  | stamp (id : Nat) (t : Stamp)
  /-- The cell of a collection. -/
  | ref (id : Nat)
  deriving DecidableEq, Repr

inductive Cell where
  | list (items : List Value)
  /-- An ordered list of pairs. -/
  | pairs (entries : List (Value × Value))
  | set (members : List Value)
  | mapping (entries : List (Value × Value))
  deriving DecidableEq, Repr

namespace Value

/-- A number as an integer if it is one. -/
def number? : Value → Option (Int ⊕ Double)
  | bool b => some (.inl (if b then 1 else 0))
  | int n => some (.inl n)
  | float x =>
    match x.toInt? with
    | some n => some (.inl n)
    | none => some (.inr x)
  | _ => none

/-- Whether two keys of a mapping are the same: numbers of one value are, whatever their kind, and
stamps of one instant. -/
def sameKey (a b : Value) : Bool :=
  match a, b with
  | date _ d, date _ d' => d = d'
  | stamp _ t, stamp _ t' => t.sub? t' = some 0
  | _, _ =>
    match a.number?, b.number? with
    | some x, some y => x = y
    | none, none => a = b
    | _, _ => false

/-- Whether a value can be a key; a collection cannot. -/
def isKey : Value → Bool
  | ref _ => false
  | _ => true

/-- The greatest magnitude of an integer that can be written, and one. -/
def integerBound : Nat := Number.tenPow Number.maxDigits

/-- Whether a value is no integer with more digits than can be written. -/
def isWritable : Value → Bool
  | int n => decide (n.natAbs < integerBound)
  | _ => true

/-- The cell that a value refers to. -/
def refs : Value → List Nat
  | ref id => [id]
  | _ => []

end Value

/-- The values inside a cell, in the order in which they are written. -/
def Cell.values : Cell → List Value
  | .list items => items
  | .set members => members
  | .pairs entries | .mapping entries => entries.flatMap fun e => [e.1, e.2]

/-- Puts an entry into a mapping. A key that is there already stays, with the new value. -/
def putEntry (entries : List (Value × Value)) (key value : Value) : List (Value × Value) :=
  match entries with
  | [] => [(key, value)]
  | e :: rest => if e.1.sameKey key then (e.1, value) :: rest else e :: putEntry rest key value

end PubspecTidy.Yaml

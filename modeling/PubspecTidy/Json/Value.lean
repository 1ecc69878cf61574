import PubspecTidy.Number.Double
import PubspecTidy.Table

/-!
# JSON values

An integer and a floating-point number are different values, as their written forms are. The
fields of an object stand in the order in which their names first came up.
-/
namespace PubspecTidy.Json

inductive Value where
  | null
  | bool (b : Bool)
  | int (n : Int)
  | float (x : Number.Double)
  | string (s : String)
  | array (items : List Value)
  | object (fields : List (String × Value))
  deriving Repr, Inhabited

namespace Value

/-- The fields of an object. -/
def fields? : Value → Option (Table String Value)
  | object fields => some fields
  | _ => none

/-- The value of a field, if the value is an object that has it. -/
def field? (v : Value) (name : String) : Option Value :=
  match v with
  | object fields => Table.get? fields name
  | _ => none

def string? : Value → Option String
  | string s => some s
  | _ => none

def items? : Value → Option (List Value)
  | array items => some items
  | _ => none

def ofStrings (texts : List String) : Value := array (texts.map string)

def ofOption {α : Type} (f : α → Value) : Option α → Value
  | some a => f a
  | none => null

end Value
end PubspecTidy.Json

import PubspecTidy.Json.Value
import PubspecTidy.Number.Layout
import PubspecTidy.Text.Affix
import PubspecTidy.Text.Quoted

/-!
# JSON values as text

A text is shown as it is on its own and between quotes inside a collection; every other value is
shown in the same way in both places.
-/
namespace PubspecTidy.Json.Value

mutual
/-- A value as it is shown inside a collection. -/
def written : Value → String
  | .null => "None"
  | .bool b => if b then "True" else "False"
  | .int n => Text.ofInt n
  | .float x => Number.Layout.valueText.text x
  | .string s => Text.quoted s
  | .array items => "[" ++ Text.join ", " (writtenItems items) ++ "]"
  | .object fields => "\x7b" ++ Text.join ", " (writtenFields fields) ++ "\x7d"

def writtenItems : List Value → List String
  | [] => []
  | v :: vs => v.written :: writtenItems vs

def writtenFields : List (String × Value) → List String
  | [] => []
  | (name, v) :: fields => (Text.quoted name ++ ": " ++ v.written) :: writtenFields fields
end

/-- A value on its own. -/
def text : Value → String
  | .string s => s
  | v => v.written

end PubspecTidy.Json.Value

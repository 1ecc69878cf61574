import PubspecTidy.Json.Value
import PubspecTidy.Number.Layout
import PubspecTidy.Text.Surrogate

/-!
# Writing JSON

Text outside printable ASCII is escaped, by two code units beyond the first plane. A document is
either indented by two blanks a level or written on one line without blanks.
-/
namespace PubspecTidy.Json

def unitEscape (n : Nat) : List Char := ['\\', 'u'] ++ Text.hexDigits false 4 n

def escapeChar (c : Char) : List Char :=
  if c = '"' ∨ c = '\\' then ['\\', c]
  else if c = '\n' then ['\\', 'n']
  else if c = '\r' then ['\\', 'r']
  else if c = '\t' then ['\\', 't']
  else if c = '\x08' then ['\\', 'b']
  else if c = '\x0C' then ['\\', 'f']
  else if ' ' ≤ c ∧ c ≤ '~' then [c]
  else if Text.codeOf c < 0x10000 then unitEscape (Text.codeOf c)
  else
    let n := c.toNat - 0x10000
    unitEscape (0xD800 + n / 0x400) ++ unitEscape (0xDC00 + n % 0x400)

def stringText (s : String) : List Char := '"' :: s.toList.flatMap escapeChar ++ ['"']

/-- A line feed and the indentation of a level. -/
def newLine (level : Nat) : List Char := '\n' :: List.replicate (2 * level) ' '

mutual
/-- A value whose first line stands at `level`. -/
def indented (level : Nat) : Value → List Char
  | .null => "null".toList
  | .bool b => if b then "true".toList else "false".toList
  | .int n => (Text.ofInt n).toList
  | .float x => (Number.Layout.json.text x).toList
  | .string s => stringText s
  | .array [] => ['[', ']']
  | .array (v :: vs) =>
    '[' :: newLine (level + 1) ++ indented (level + 1) v ++ indentedItems (level + 1) vs
      ++ newLine level ++ [']']
  | .object [] => ['\x7b', '\x7d']
  | .object ((name, v) :: fields) =>
    '\x7b' :: newLine (level + 1) ++ stringText name ++ [':', ' '] ++ indented (level + 1) v
      ++ indentedFields (level + 1) fields ++ newLine level ++ ['\x7d']

/-- The items after the first one. -/
def indentedItems (level : Nat) : List Value → List Char
  | [] => []
  | v :: vs => ',' :: newLine level ++ indented level v ++ indentedItems level vs

/-- The fields after the first one. -/
def indentedFields (level : Nat) : List (String × Value) → List Char
  | [] => []
  | (name, v) :: fields =>
    ',' :: newLine level ++ stringText name ++ [':', ' '] ++ indented level v
      ++ indentedFields level fields
end

/-! The indented texts of values with parts. -/

theorem indented_string (level : Nat) (s : String) : indented level (.string s) = stringText s := rfl

theorem indented_array_cons (level : Nat) (v : Value) (vs : List Value) :
    indented level (.array (v :: vs)) = '[' :: (newLine (level + 1) ++ (indented (level + 1) v ++
      (indentedItems (level + 1) vs ++ (newLine level ++ [']'])))) := by
  change '[' :: newLine (level + 1) ++ indented (level + 1) v ++ indentedItems (level + 1) vs
      ++ newLine level ++ [']'] = _
  simp only [List.cons_append, List.append_assoc]

theorem indented_object_cons (level : Nat) (name : String) (v : Value)
    (fields : List (String × Value)) :
    indented level (.object ((name, v) :: fields)) = '\x7b' :: (newLine (level + 1) ++
      (stringText name ++ ([':', ' '] ++ (indented (level + 1) v ++
        (indentedFields (level + 1) fields ++ (newLine level ++ ['\x7d'])))))) := by
  change '\x7b' :: newLine (level + 1) ++ stringText name ++ [':', ' '] ++ indented (level + 1) v
      ++ indentedFields (level + 1) fields ++ newLine level ++ ['\x7d'] = _
  simp only [List.cons_append, List.append_assoc]

theorem indentedItems_nil (level : Nat) : indentedItems level [] = [] := rfl

theorem indentedItems_cons (level : Nat) (v : Value) (vs : List Value) :
    indentedItems level (v :: vs) =
      ',' :: (newLine level ++ (indented level v ++ indentedItems level vs)) := by
  change ',' :: newLine level ++ indented level v ++ indentedItems level vs = _
  simp only [List.cons_append, List.append_assoc]

theorem indentedFields_nil (level : Nat) : indentedFields level [] = [] := rfl

theorem indentedFields_cons (level : Nat) (name : String) (v : Value)
    (fields : List (String × Value)) :
    indentedFields level ((name, v) :: fields) = ',' :: (newLine level ++ (stringText name ++
      ([':', ' '] ++ (indented level v ++ indentedFields level fields)))) := by
  change ',' :: newLine level ++ stringText name ++ [':', ' '] ++ indented level v
      ++ indentedFields level fields = _
  simp only [List.cons_append, List.append_assoc]

mutual
/-- A value on one line. -/
def compact : Value → List Char
  | .null => "null".toList
  | .bool b => if b then "true".toList else "false".toList
  | .int n => (Text.ofInt n).toList
  | .float x => (Number.Layout.json.text x).toList
  | .string s => stringText s
  | .array vs => '[' :: compactItems vs ++ [']']
  | .object fields => '\x7b' :: compactFields fields ++ ['\x7d']

def compactItems : List Value → List Char
  | [] => []
  | [v] => compact v
  | v :: vs => compact v ++ ',' :: compactItems vs

def compactFields : List (String × Value) → List Char
  | [] => []
  | [(name, v)] => stringText name ++ ':' :: compact v
  | (name, v) :: fields => stringText name ++ ':' :: compact v ++ ',' :: compactFields fields
end

/-- A value as an indented document. -/
def print (v : Value) : String := String.ofList (indented 0 v)

/-- A value on one line. -/
def printCompact (v : Value) : String := String.ofList (compact v)

end PubspecTidy.Json

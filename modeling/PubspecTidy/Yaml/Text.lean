import PubspecTidy.Number.Layout
import PubspecTidy.Text.Affix
import PubspecTidy.Text.Quoted
import PubspecTidy.Yaml.Document

/-!
# YAML values as text

A value is shown plainly on its own, and in its written form inside a collection: there texts stand
between quotes, dates and stamps are spelt out, and a collection that stands inside itself is shown
as dots.
-/
namespace PubspecTidy.Yaml

open Time (Date Stamp)

namespace Written

def listOf (items : List String) : String := "(" ++ Text.join ", " items ++ ")"

/-- A duration in the parts that are not zero: days, seconds of a day and microseconds. -/
def duration (micros : Int) : String :=
  let days := Int.fdiv micros Time.day
  let rest := (Int.fmod micros Time.day).toNat
  let part (name : String) (n : Int) : List String :=
    if n = 0 then [] else [name ++ "=" ++ Text.ofInt n]
  let parts := part "days" days ++ part "seconds" (rest / Time.second)
    ++ part "microseconds" (rest % Time.second)
  "datetime.timedelta" ++ listOf (if parts.isEmpty then ["0"] else parts)

def offset (micros : Int) : String :=
  if micros = 0 then "datetime.timezone.utc"
  else "datetime.timezone" ++ listOf [duration micros]

def date (d : Date) : String :=
  "datetime.date" ++ listOf ([d.year, d.month, d.day].map Text.ofNat)

/-- A stamp in its fields; the seconds and the microseconds only as far as they are not zero. -/
def stamp (t : Stamp) : String :=
  let seconds :=
    if t.microsecondOf ≠ 0 then [t.secondOf, t.microsecondOf]
    else if t.secondOf ≠ 0 then [t.secondOf]
    else []
  let fields := [t.date.year, t.date.month, t.date.day, t.hourOf, t.minuteOf] ++ seconds
  let zone :=
    match t.offset with
    | some o => ["tzinfo=" ++ offset o]
    | none => []
  "datetime.datetime" ++ listOf (fields.map Text.ofNat ++ zone)

end Written

/-- A value that is no collection, in its written form. -/
def Value.writtenLeaf : Value → String
  | .null => "None"
  | .bool b => if b then "True" else "False"
  | .int n => Text.ofInt n
  | .float x => Number.Layout.valueText.text x
  | .nan _ => Number.Layout.valueText.text .nan
  | .string s => Text.quoted s
  | .bytes bs => Text.quotedBytes bs
  | .date _ d => Written.date d
  | .stamp _ t => Written.stamp t
  | .ref _ => "..."

namespace Document

/-- A value in its written form, inside the collections `around`. A collection inside itself ends
the recursion, so the number of cells is enough fuel. -/
def written (doc : Document) : Nat → List Nat → Value → String
  | 0, _, v => v.writtenLeaf
  | fuel + 1, around, v =>
    match v with
    | .ref id =>
      let inner := written doc fuel (id :: around)
      let seen := around.contains id
      match Table.get? doc.cells id with
      | some (.list items) =>
        if seen then "[...]" else "[" ++ Text.join ", " (items.map inner) ++ "]"
      | some (.pairs entries) =>
        if seen then "[...]"
        else
          let pair (e : Value × Value) : String := Written.listOf [inner e.1, inner e.2]
          "[" ++ Text.join ", " (entries.map pair) ++ "]"
      | some (.set []) => "set()"
      | some (.set members) => "\x7b" ++ Text.join ", " (members.map inner) ++ "\x7d"
      | some (.mapping entries) =>
        if seen then "\x7b...\x7d"
        else
          let entry (e : Value × Value) : String := inner e.1 ++ ": " ++ inner e.2
          "\x7b" ++ Text.join ", " (entries.map entry) ++ "\x7d"
      | none => ""
    | leaf => leaf.writtenLeaf

/-- A value on its own, unless something in it is too long. -/
def text? (doc : Document) (v : Value) : Option String :=
  match v with
  | .string s => some s
  | .date _ d => some (String.ofList (Stamp.dateText d))
  | .stamp _ t => some (t.textWith ' ')
  | v => if doc.isWritable v then some (doc.written (doc.cells.length + 2) [] v) else none

end Document
end PubspecTidy.Yaml

import PubspecTidy.Text.Digit
import PubspecTidy.Text.Lines

/-!
# Tags, and the tags of plain scalars

A plain scalar without a tag gets the one whose written forms include it; anything else is text.
-/
namespace PubspecTidy.Yaml

inductive Tag where
  | null
  | bool
  | int
  | float
  | binary
  | timestamp
  | orderedMap
  | pairs
  | set
  | text
  | sequence
  | mapping
  /-- The tag of the key that merges other mappings into this one. -/
  | merge
  /-- The tag of the key for the default value. -/
  | default
  /-- Any other tag; no value has it. -/
  | unknown
  deriving DecidableEq, Repr

namespace Tag

/-- What the tags of the YAML types start with. -/
def standard : String := "tag:yaml.org,2002:"

/-- The names of the YAML types. -/
def names : List (String × Tag) :=
  [("null", null), ("bool", bool), ("int", int), ("float", float), ("binary", binary),
   ("timestamp", timestamp), ("omap", orderedMap), ("pairs", pairs), ("set", set), ("str", text),
   ("seq", sequence), ("map", mapping), ("merge", merge), ("value", default)]

def ofUri (uri : String) : Tag :=
  match names.find? fun p => standard ++ p.1 == uri with
  | some (_, t) => t
  | none => unknown

end Tag

/-! ## Written forms of plain scalars -/
namespace Plain

def truthWords : List String :=
  ["yes", "Yes", "YES", "no", "No", "NO", "true", "True", "TRUE", "false", "False", "FALSE",
   "on", "On", "ON", "off", "Off", "OFF"]

def nullWords : List String := ["", "~", "null", "Null", "NULL"]

def dropSign : List Char → List Char
  | '-' :: cs => cs
  | '+' :: cs => cs
  | cs => cs

def isDigitMark (c : Char) : Bool := Text.isAsciiDigit c || c = '_'

/-- One or two digits of base sixty. -/
def isSixtieth : List Char → Bool
  | [a] => Text.isAsciiDigit a
  | [a, b] => decide ('0' ≤ a) && decide (a ≤ '5') && Text.isAsciiDigit b
  | _ => false

/-- A number and at least one part of base sixty after it, with colons between them. -/
def isSexagesimal (first : Char → Bool) (cs : List Char) : Bool :=
  match Text.splitOn ':' cs with
  | (c :: rest) :: parts =>
    first c && rest.all isDigitMark && !parts.isEmpty && parts.all isSixtieth
  | _ => false

def isNonzeroDigit (c : Char) : Bool := Text.isAsciiDigit c && c != '0'

def isInt (cs : List Char) : Bool :=
  match dropSign cs with
  | ['0'] => true
  | '0' :: 'b' :: rest => !rest.isEmpty && rest.all fun c => c = '0' || c = '1' || c = '_'
  | '0' :: 'x' :: rest => !rest.isEmpty && rest.all fun c => (Text.hexValue? c).isSome || c = '_'
  | '0' :: rest => rest.all fun c => (decide ('0' ≤ c) && decide (c ≤ '7')) || c = '_'
  | c :: rest =>
    (isNonzeroDigit c && rest.all isDigitMark) || isSexagesimal isNonzeroDigit (c :: rest)
  | [] => false

/-- An exponent with a sign, or nothing. -/
def isExponent : List Char → Bool
  | [] => true
  | e :: sign :: ds =>
    (e = 'e' || e = 'E') && (sign = '-' || sign = '+') && !ds.isEmpty && ds.all Text.isAsciiDigit
  | _ => false

/-- What may follow the point of a number. -/
def isFraction (cs : List Char) : Bool := isExponent (cs.dropWhile isDigitMark)

def isFloat (cs : List Char) : Bool :=
  let unsigned := dropSign cs
  match unsigned with
  | '.' :: rest =>
    let word := String.ofList rest
    ["inf", "Inf", "INF"].contains word
      || (cs == unsigned && (["nan", "NaN", "NAN"].contains word
        || ((rest.head?.map Text.isAsciiDigit).getD false && isFraction rest)))
  | c :: _ =>
    match unsigned.takeWhile (· != '.'), unsigned.dropWhile (· != '.') with
    | whole, '.' :: rest =>
      (Text.isAsciiDigit c && whole.all isDigitMark && isFraction rest)
        || (isSexagesimal Text.isAsciiDigit whole && rest.all isDigitMark)
    | _, _ => false
  | [] => false

/-- Takes between `least` and `most` digits off the front. -/
def takeDigits? (least most : Nat) (cs : List Char) : Option (List Char × List Char) :=
  let ds := (cs.take most).takeWhile Text.isAsciiDigit
  if ds.length < least then none else some (ds, cs.drop ds.length)

def takeChar? (c : Char) : List Char → Option (List Char)
  | d :: cs => if c = d then some cs else none
  | [] => none

/-- The parts of a time stamp as written. -/
structure StampText where
  year : List Char
  month : List Char
  day : List Char
  /-- The hour, the minute and the second. -/
  clock : Option (List Char × List Char × List Char)
  fraction : List Char
  /-- The sign, the hours and the minutes of an offset; none of them for universal time. -/
  offset : Option (Option (Char × List Char × List Char))

/-- What separates a date from a time. -/
def takeSeparator? : List Char → Option (List Char)
  | c :: cs =>
    if c = 'T' ∨ c = 't' then some cs
    else if c = ' ' ∨ c = '\t' then some (cs.dropWhile fun c => c = ' ' || c = '\t')
    else none
  | [] => none

def readOffset? (cs : List Char) : Option (Option (Option (Char × List Char × List Char))) :=
  match cs.dropWhile fun c => c = ' ' || c = '\t' with
  | [] => if cs.isEmpty then some none else none
  | ['Z'] => some (some none)
  | sign :: rest => do
    if sign = '-' ∨ sign = '+' then
      let (hours, rest) ← takeDigits? 1 2 rest
      match rest with
      | [] => some (some (some (sign, hours, [])))
      | ':' :: rest =>
        let (minutes, rest) ← takeDigits? 2 2 rest
        if rest.isEmpty then some (some (some (sign, hours, minutes))) else none
      | _ => none
    else none

/-- The parts of a time stamp; the month, the day and the hour have one digit or two. -/
def readStamp? (cs : List Char) : Option StampText := do
  let (year, rest) ← takeDigits? 4 4 cs
  let rest ← takeChar? '-' rest
  let (month, rest) ← takeDigits? 1 2 rest
  let rest ← takeChar? '-' rest
  let (day, rest) ← takeDigits? 1 2 rest
  if rest.isEmpty then return ⟨year, month, day, none, [], none⟩
  else
    let rest ← takeSeparator? rest
    let (hour, rest) ← takeDigits? 1 2 rest
    let rest ← takeChar? ':' rest
    let (minute, rest) ← takeDigits? 2 2 rest
    let rest ← takeChar? ':' rest
    let (second, rest) ← takeDigits? 2 2 rest
    let (fraction, rest) :=
      match rest with
      | '.' :: more => (more.takeWhile Text.isAsciiDigit, more.dropWhile Text.isAsciiDigit)
      | _ => ([], rest)
    let offset ← readOffset? rest
    return ⟨year, month, day, some (hour, minute, second), fraction, offset⟩

/-- A plain scalar counts as a time stamp if its date alone has two digits for month and day. -/
def isStamp (cs : List Char) : Bool :=
  match readStamp? cs with
  | some t => t.clock.isSome || (t.month.length = 2 && t.day.length = 2)
  | none => false

end Plain

/-- A line end after a scalar does not count when it is compared with the written forms. -/
def dropFinalBreak (cs : List Char) : List Char :=
  if cs.getLast? == some '\n' then cs.dropLast else cs

/-- The tag of a scalar by its text. -/
def Tag.ofPlain (s : String) : Tag :=
  let cs := if s == "\n" then s.toList else dropFinalBreak s.toList
  let word := String.ofList cs
  if Plain.truthWords.contains word then .bool
  else if Plain.isFloat cs then .float
  else if Plain.isInt cs then .int
  else if word == "<<" then .merge
  else if Plain.nullWords.contains word then .null
  else if Plain.isStamp cs then .timestamp
  else if word == "=" then .default
  else if word == "!" || word == "&" || word == "*" then .unknown
  else .text

end PubspecTidy.Yaml

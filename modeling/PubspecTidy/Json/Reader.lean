import PubspecTidy.Json.Value
import PubspecTidy.Number.Reader
import PubspecTidy.Text.Surrogate

/-!
# Reading JSON

The grammar of JSON with the three words for numbers that are not finite. A name that comes twice
in an object keeps its first place and takes its last value. The two halves of a surrogate pair are
one character, and a half that stands alone is kept as it is.
-/
namespace PubspecTidy.Json

def isSpace (c : Char) : Bool := c = ' ' || c = '\t' || c = '\n' || c = '\r'

def skipSpace (cs : List Char) : List Char := cs.dropWhile isSpace

/-- The value of four hexadecimal digits. -/
def hex4? (a b c d : Char) : Option Nat := do
  let a ← Text.hexValue? a
  let b ← Text.hexValue? b
  let c ← Text.hexValue? c
  let d ← Text.hexValue? d
  return ((a * 16 + b) * 16 + c) * 16 + d

/-- The character that a backslash and `c` stand for. -/
def escaped? (c : Char) : Option Char :=
  if c = '"' ∨ c = '\\' ∨ c = '/' then some c
  else if c = 'b' then some '\x08'
  else if c = 'f' then some '\x0C'
  else if c = 'n' then some '\n'
  else if c = 'r' then some '\r'
  else if c = 't' then some '\t'
  else none

/-- Puts a character in front of what was read. -/
def consRead (c : Char) (r : Option (List Char × List Char)) : Option (List Char × List Char) :=
  r.map fun p => (c :: p.1, p.2)

/-- The rest of a string after its opening quote, and what follows the closing one. -/
def readString : List Char → Option (List Char × List Char)
  | [] => none
  | '"' :: cs => some ([], cs)
  | '\\' :: 'u' :: a :: b :: c :: d :: '\\' :: 'u' :: e :: f :: g :: h :: cs =>
    match hex4? a b c d, hex4? e f g h with
    | some high, some low =>
      if Text.isHighHalf high && Text.isLowHalf low then
        consRead (Text.charOfPair high low) (readString cs)
      else consRead (Text.charOfCode high) (readString ('\\' :: 'u' :: e :: f :: g :: h :: cs))
    | some n, none => consRead (Text.charOfCode n) (readString ('\\' :: 'u' :: e :: f :: g :: h :: cs))
    | none, _ => none
  | '\\' :: 'u' :: a :: b :: c :: d :: cs =>
    match hex4? a b c d with
    | some n => consRead (Text.charOfCode n) (readString cs)
    | none => none
  | '\\' :: c :: cs =>
    match escaped? c with
    | some e => consRead e (readString cs)
    | none => none
  | c :: cs => if c.toNat < 0x20 then none else consRead c (readString cs)

def takeDigits (cs : List Char) : List Char × List Char :=
  (cs.takeWhile Text.isAsciiDigit, cs.dropWhile Text.isAsciiDigit)

/-- A fraction part: a point and at least one digit. -/
def takeFraction (cs : List Char) : List Char × List Char :=
  match cs with
  | '.' :: more =>
    match takeDigits more with
    | ([], _) => ([], cs)
    | (ds, rest) => ('.' :: ds, rest)
  | _ => ([], cs)

/-- An exponent part: a letter, perhaps a sign, and at least one digit. -/
def takeExponent (cs : List Char) : List Char × List Char :=
  match cs with
  | c :: more =>
    if c = 'e' ∨ c = 'E' then
      let (sign, more) :=
        match more with
        | '+' :: r => (['+'], r)
        | '-' :: r => (['-'], r)
        | r => ([], r)
      match takeDigits more with
      | ([], _) => ([], cs)
      | (ds, rest) => (c :: sign ++ ds, rest)
    else ([], cs)
  | [] => ([], cs)

/-- The integer part: a zero alone, or digits that do not start with one. -/
def takeWhole (cs : List Char) : List Char × List Char :=
  match cs with
  | '0' :: rest => (['0'], rest)
  | _ => takeDigits cs

/-- A number without its sign. -/
def readNumber (negative : Bool) (cs : List Char) : Option (Value × List Char) :=
  match takeWhole cs with
  | ([], _) => none
  | (whole, rest) =>
    let (fraction, rest) := takeFraction rest
    let (exponent, rest) := takeExponent rest
    if fraction.isEmpty && exponent.isEmpty then
      (Number.readNat? 10 whole).map fun n => (.int (if negative then -(n : Int) else n), rest)
    else
      (Number.readDecimal? negative (whole ++ fraction ++ exponent)).map fun x => (.float x, rest)

/-- Takes `word` off the front. -/
def takeWord? (word : String) (cs : List Char) : Option (List Char) :=
  if word.toList.isPrefixOf cs then some (cs.drop word.toList.length) else none

def readWord (cs : List Char) : Option (Value × List Char) :=
  match takeWord? "null" cs, takeWord? "true" cs, takeWord? "false" cs with
  | some rest, _, _ => some (.null, rest)
  | _, some rest, _ => some (.bool true, rest)
  | _, _, some rest => some (.bool false, rest)
  | _, _, _ =>
    match takeWord? "NaN" cs, takeWord? "Infinity" cs, takeWord? "-Infinity" cs with
    | some rest, _, _ => some (.float .nan, rest)
    | _, some rest, _ => some (.float (.infinite false), rest)
    | _, _, some rest => some (.float (.infinite true), rest)
    | _, _, _ =>
      match cs with
      | '-' :: rest => readNumber true rest
      | _ => readNumber false cs

mutual
/-- A value at the very start, and what follows it. Every value takes at least one character, so
the length of the text is enough fuel. -/
def readValue : Nat → List Char → Option (Value × List Char)
  | 0, _ => none
  | fuel + 1, cs =>
    match cs with
    | '"' :: rest => (readString rest).map fun p => (.string (String.ofList p.1), p.2)
    | '[' :: rest =>
      match skipSpace rest with
      | ']' :: rest => some (.array [], rest)
      | rest => (readItems fuel rest).map fun p => (.array p.1, p.2)
    | '\x7b' :: rest =>
      match skipSpace rest with
      | '\x7d' :: rest => some (.object [], rest)
      | rest => (readFields fuel rest).map fun p => (.object (Table.ofList p.1), p.2)
    | _ => readWord cs

/-- The items of an array up to its bracket. -/
def readItems : Nat → List Char → Option (List Value × List Char)
  | 0, _ => none
  | fuel + 1, cs =>
    match readValue fuel cs with
    | none => none
    | some (v, rest) =>
      match skipSpace rest with
      | ']' :: rest => some ([v], rest)
      | ',' :: rest => (readItems fuel (skipSpace rest)).map fun p => (v :: p.1, p.2)
      | _ => none

/-- The fields of an object up to its brace. -/
def readFields : Nat → List Char → Option (List (String × Value) × List Char)
  | 0, _ => none
  | fuel + 1, cs =>
    match cs with
    | '"' :: rest =>
      match readString rest with
      | none => none
      | some (name, rest) =>
        match skipSpace rest with
        | ':' :: rest =>
          match readValue fuel (skipSpace rest) with
          | none => none
          | some (v, rest) =>
            match skipSpace rest with
            | '\x7d' :: rest => some ([(String.ofList name, v)], rest)
            | ',' :: rest =>
              (readFields fuel (skipSpace rest)).map fun p => ((String.ofList name, v) :: p.1, p.2)
            | _ => none
        | _ => none
    | _ => none
end

/-- The value that a text holds, if it is a JSON document. -/
def read? (text : String) : Option Value :=
  let cs := skipSpace text.toList
  match readValue (2 * cs.length + 2) cs with
  | some (v, rest) => if (skipSpace rest).isEmpty then some v else none
  | none => none

/-- A value that its text holds from end to end. -/
theorem read?_of_readValue {text : String} {cs : List Char} {v : Value}
    (htext : text = String.ofList cs)
    (hread : readValue (2 * (skipSpace cs).length + 2) (skipSpace cs) = some (v, [])) :
    read? text = some v := by
  unfold read?
  rw [htext, String.toList_ofList]
  dsimp only
  rw [hread]
  rfl

end PubspecTidy.Json

import PubspecTidy.Text.Digit
import PubspecTidy.Text.Surrogate
import PubspecTidy.Yaml.Cursor
import PubspecTidy.Yaml.Fault

/-!
# Quoted scalars

A line end inside quotes is folded into a space, and further ones are kept. Only double quotes know
escapes; between single quotes a quote is written twice.
-/
namespace PubspecTidy.Yaml.Quoted

/-- The character that a letter after a backslash stands for. -/
def escapes : List (Char × Char) :=
  [('0', '\x00'), ('a', '\x07'), ('b', '\x08'), ('t', '\t'), ('\t', '\t'), ('n', '\n'),
   ('v', '\x0B'), ('f', '\x0C'), ('r', '\r'), ('e', '\x1B'), (' ', ' '), ('"', '"'), ('\\', '\\'),
   ('/', '/'), ('N', '\u0085'), ('_', '\u00A0'), ('L', '\u2028'), ('P', '\u2029')]

/-- The number of hexadecimal digits after a letter that announces a code point. -/
def codeLength? (c : Char) : Option Nat :=
  if c = 'x' then some 2 else if c = 'u' then some 4 else if c = 'U' then some 8 else none

def natOfHex (ds : List Char) : Nat :=
  ds.foldl (fun n c => n * 16 + (Text.hexValue? c).getD 0) 0

/-- The character of a code point, which may be half of a surrogate pair. -/
def charOfCode (n : Nat) : Except Fault Char :=
  if 0x7FFFFFFF < n then .error .overflow
  else if 0x10FFFF < n then .error .badValue
  else .ok (Text.charOfCode n)

/-- A code point of `count` hexadecimal digits. -/
def takeCode (count : Nat) (c : Cursor) : Except Fault (Char × Cursor) :=
  let ds := c.rest.take count
  if ds.length = count ∧ ds.all (fun d => (Text.hexValue? d).isSome) then do
    let ch ← charOfCode (natOfHex ds)
    return (ch, c.skip count)
  else .error .malformed

/-- The line ends here, with the blanks around them; no document may start or end among them. -/
def takeBreaks : Nat → Cursor → Except Fault (List Char × Cursor)
  | 0, c => .ok ([], c)
  | fuel + 1, c =>
    if c.markerAt then .error .malformed
    else
      let c := c.skipWhile isSpaceOrTab
      match c.takeBreak? with
      | some (b, c) => do
        let (bs, c) ← takeBreaks fuel c
        return (b :: bs, c)
      | none => .ok ([], c)

/-- Blanks inside the quotes: a run without line ends is kept. -/
def takeBlanks (c : Cursor) : Except Fault (List Char × Cursor) :=
  let (blanks, c) := c.takeWhile isSpaceOrTab
  match c.rest, c.takeBreak? with
  | [], _ => .error .malformed
  | _, none => .ok (blanks, c)
  | _, some (b, c) => do
    let (bs, c) ← takeBreaks (c.rest.length + 1) c
    if b ≠ '\n' then return (b :: bs, c)
    else if bs.isEmpty then return ([' '], c)
    else return (bs, c)

/-- What follows a backslash. -/
def takeEscape (c : Cursor) : Except Fault (List Char × Cursor) :=
  match c.rest with
  | [] => .error .malformed
  | ch :: _ =>
    match escapes.lookup ch, codeLength? ch with
    | some e, _ => .ok ([e], c.next)
    | none, some count => do
      let (e, c) ← takeCode count c.next
      return ([e], c)
    | none, none =>
      match c.takeBreak? with
      | some (_, c) => takeBreaks (c.rest.length + 1) c
      | none => .error .malformed

/-- The characters up to the closing quote, which is taken too. -/
def takeInner (double : Bool) : Nat → Cursor → Except Fault (List Char × Cursor)
  | 0, _ => .error .malformed
  | fuel + 1, c => do
    let go (part : List Char) (c : Cursor) : Except Fault (List Char × Cursor) := do
      let (rest, c) ← takeInner double fuel c
      return (part ++ rest, c)
    match c.rest with
    | [] => .error .malformed
    | ch :: rest =>
      if ch = '\'' ∧ !double then
        if rest.head? == some '\'' then go ['\''] (c.skip 2) else .ok ([], c.next)
      else if ch = '"' ∧ double then .ok ([], c.next)
      else if ch = '\\' ∧ double then
        let (part, c) ← takeEscape c.next
        go part c
      else if isGap ch then
        let (part, c) ← takeBlanks c
        go part c
      else go [ch] c.next

/-- A scalar from its opening quote on. -/
def take (double : Bool) (c : Cursor) : Except Fault (String × Cursor) := do
  let (cs, c) ← takeInner double (c.rest.length + 1) c.next
  return (String.ofList cs, c)

end PubspecTidy.Yaml.Quoted

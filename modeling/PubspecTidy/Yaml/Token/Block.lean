import PubspecTidy.Text.Digit
import PubspecTidy.Yaml.Cursor
import PubspecTidy.Yaml.Fault

/-!
# Block scalars

A literal block keeps its line ends, a folded one turns a line end between two lines that do not
start with a blank into a space. The header may set the indentation and what happens to the line
ends after the last line.
-/
namespace PubspecTidy.Yaml.Block

/-- What happens to the line ends at the end: all but one are dropped, or all, or none. -/
inductive Chomping where
  | clip
  | strip
  | keep
  deriving DecidableEq, Repr

def chomping? (c : Char) : Option Chomping :=
  if c = '+' then some .keep else if c = '-' then some .strip else none

/-- A digit from one to nine as an indentation; a zero is refused. -/
def indentDigit? (c : Char) : Option (Except Fault Nat) :=
  if !Text.isAsciiDigit c then none
  else if c = '0' then some (.error .malformed)
  else some (.ok (c.toNat - 48))

def takeChomping (c : Cursor) : Chomping × Cursor :=
  match c.rest.head?.bind chomping? with
  | some chomping => (chomping, c.next)
  | none => (.clip, c)

def takeIndent (c : Cursor) : Except Fault (Option Nat × Cursor) :=
  match c.rest.head?.bind indentDigit? with
  | some n => n.map fun n => (some n, c.next)
  | none => .ok (none, c)

/-- The two settings of the header, in either order. -/
def takeSettings (c : Cursor) : Except Fault ((Chomping × Option Nat) × Cursor) := do
  match c.rest.head?.bind chomping? with
  | some chomping =>
    let (indent, c) ← takeIndent c.next
    return ((chomping, indent), c)
  | none =>
    let (indent, c) ← takeIndent c
    if indent.isSome then
      let (chomping, c) := takeChomping c
      return ((chomping, indent), c)
    else return ((.clip, none), c)

/-- The remainder of the header line, which may only be a comment. -/
def takeHeaderEnd (c : Cursor) : Except Fault Cursor :=
  if !spaceOrLineEndAt c.rest then .error .malformed
  else
    let c := c.skipSpaces.skipComment
    match c.takeBreak? with
    | some (_, c) => .ok c
    | none => if c.rest.isEmpty then .ok c else .error .malformed

/-- The line ends before the first line with text, and the deepest column among them. -/
def takeLead : Nat → Nat → Cursor → (List Char × Nat) × Cursor
  | 0, deepest, c => (([], deepest), c)
  | fuel + 1, deepest, c =>
    if c.rest.head? == some ' ' then
      let c := c.next
      takeLead fuel (max deepest c.column) c
    else
      match c.takeBreak? with
      | some (b, c) =>
        let ((bs, deepest), c) := takeLead fuel deepest c
        ((b :: bs, deepest), c)
      | none => (([], deepest), c)

/-- The line ends here, with the spaces up to the indentation that follow each. -/
def takeBreaks (indent : Nat) : Nat → Cursor → List Char × Cursor
  | 0, c => ([], c)
  | fuel + 1, c =>
    let c := c.skipSpacesTo indent
    match c.takeBreak? with
    | some (b, c) =>
      let (bs, c) := takeBreaks indent fuel c
      (b :: bs, c)
    | none => ([], c)

/-- What the lines give: their text, the line end after the last one, and the empty lines at the
end. -/
structure Lines where
  text : List Char
  lastBreak : List Char
  trailing : List Char

/-- The line end between two lines, as it is read. -/
def between (folded : Bool) (b : List Char) (blankBefore blankAfter : Bool) (empty : List Char) :
    List Char :=
  if folded && b == ['\n'] && !blankBefore && !blankAfter then
    if empty.isEmpty then [' '] else []
  else b

def startsBlank (c : Cursor) : Bool := (c.rest.head?.map isSpaceOrTab).getD false

/-- The lines at the indentation; `empty` are the line ends before them. -/
def takeLines (folded : Bool) (indent : Nat) : Nat → List Char → Cursor → Lines × Cursor
  | 0, empty, c => (⟨[], [], empty⟩, c)
  | fuel + 1, empty, c =>
    let blankBefore := startsBlank c
    let (line, c) := c.takeWhile (!isBreak ·)
    let (b, c) :=
      match c.takeBreak? with
      | some (b, c) => ([b], c)
      | none => ([], c)
    let (later, c) := takeBreaks indent (c.rest.length + 1) c
    if c.column = indent ∧ !c.rest.isEmpty then
      let joint := between folded b blankBefore (startsBlank c) later
      let (lines, c) := takeLines folded indent fuel later c
      (⟨empty ++ line ++ joint ++ lines.text, lines.lastBreak, lines.trailing⟩, c)
    else (⟨empty ++ line, b, later⟩, c)

def chomp (chomping : Chomping) (lines : Lines) : List Char :=
  match chomping with
  | .clip => lines.text ++ lines.lastBreak
  | .strip => lines.text
  | .keep => lines.text ++ lines.lastBreak ++ lines.trailing

/-- A scalar from its indicator on, inside a block at `indent`. -/
def take (folded : Bool) (indent : Int) (c : Cursor) : Except Fault (String × Cursor) := do
  let ((chomping, increment), c) ← takeSettings c.next
  let c ← takeHeaderEnd c
  let least := max 1 (indent + 1).toNat
  let (empty, indent, c) :=
    match increment with
    | some n =>
      let indent := least + n - 1
      let (bs, c) := takeBreaks indent (c.rest.length + 1) c
      (bs, indent, c)
    | none =>
      let ((bs, deepest), c) := takeLead (c.rest.length + 1) 0 c
      (bs, max least deepest, c)
  if c.column = indent ∧ !c.rest.isEmpty then
    let (lines, c) := takeLines folded indent (c.rest.length + 1) empty c
    return (String.ofList (chomp chomping lines), c)
  else return (String.ofList (chomp chomping ⟨[], [], empty⟩), c)

end PubspecTidy.Yaml.Block

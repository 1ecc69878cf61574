/-!
# Places in a YAML text

A cursor is the rest of a text and the place where it starts. Main statement: moving on never makes
the rest longer.
-/
namespace PubspecTidy.Yaml

/-- The characters that end a line. -/
def isBreak (c : Char) : Bool :=
  c = '\r' || c = '\n' || c = '\u0085' || c = '\u2028' || c = '\u2029'

def isSpaceOrTab (c : Char) : Bool := c = ' ' || c = '\t'

/-- The characters that end a word. -/
def isGap (c : Char) : Bool := isSpaceOrTab c || isBreak c

/-- The byte order mark, which takes no column. -/
def byteOrderMark : Char := '\uFEFF'

/-- Whether a word ends here. -/
def gapAt : List Char → Bool
  | [] => true
  | c :: _ => isGap c

/-- Whether a line ends here. -/
def lineEndAt : List Char → Bool
  | [] => true
  | c :: _ => isBreak c

/-- Whether a line ends here or a space stands here. -/
def spaceOrLineEndAt : List Char → Bool
  | [] => true
  | c :: _ => c = ' ' || isBreak c

structure Cursor where
  rest : List Char
  index : Nat
  line : Nat
  column : Nat
  deriving Repr

namespace Cursor

def ofText (cs : List Char) : Cursor := ⟨cs, 0, 0, 0⟩

/-- Moves on by one character. A carriage return before a line feed does not end the line. -/
def next (c : Cursor) : Cursor :=
  match c.rest with
  | [] => c
  | ch :: rest =>
    if isBreak ch && !(ch = '\r' && rest.head? == some '\n') then
      ⟨rest, c.index + 1, c.line + 1, 0⟩
    else if ch = byteOrderMark then ⟨rest, c.index + 1, c.line, c.column⟩
    else ⟨rest, c.index + 1, c.line, c.column + 1⟩

def skip : Nat → Cursor → Cursor
  | 0, c => c
  | n + 1, c => skip n c.next

/-- Moves over the characters of a kind and gives them too. -/
def takeWhile (c : Cursor) (p : Char → Bool) : List Char × Cursor :=
  let cs := c.rest.takeWhile p
  (cs, c.skip cs.length)

def skipWhile (c : Cursor) (p : Char → Bool) : Cursor := (c.takeWhile p).2

def skipSpaces (c : Cursor) : Cursor := c.skipWhile (· = ' ')

/-- Moves over spaces, but not beyond a column. -/
def skipSpacesTo (c : Cursor) (column : Nat) : Cursor :=
  c.skip ((c.rest.takeWhile (· = ' ')).take (column - c.column)).length

/-- Moves over a comment, if one starts here, up to the end of the line. -/
def skipComment (c : Cursor) : Cursor :=
  if c.rest.head? == some '#' then c.skipWhile (!isBreak ·) else c

/-- Takes a line end, as the character that it stands for in a scalar. -/
def takeBreak? (c : Cursor) : Option (Char × Cursor) :=
  match c.rest with
  | '\r' :: '\n' :: _ => some ('\n', c.skip 2)
  | ch :: _ =>
    if ch = '\u2028' ∨ ch = '\u2029' then some (ch, c.next)
    else if isBreak ch then some ('\n', c.next)
    else none
  | [] => none

/-- Whether a line of three hyphens or dots starts here, whatever the column. -/
def markerAt (c : Cursor) : Bool :=
  match c.rest with
  | '-' :: '-' :: '-' :: rest => gapAt rest
  | '.' :: '.' :: '.' :: rest => gapAt rest
  | _ => false

theorem length_next (c : Cursor) : c.next.rest.length = c.rest.length - 1 := by
  unfold next
  split
  · simp_all
  · rename_i h
    split
    · simp [h]
    · split <;> simp [h]

theorem length_skip (n : Nat) (c : Cursor) : (c.skip n).rest.length = c.rest.length - n := by
  induction n generalizing c with
  | zero => simp [skip]
  | succ n ih => simp [skip, ih, length_next]; omega

end Cursor
end PubspecTidy.Yaml

import PubspecTidy.Yaml.Cursor

/-!
# Plain scalars

A scalar without quotes ends before a colon with a gap after it, before a comment, and before any
indicator of a flow collection that it stands in. It may go on over several lines that are indented
deeper than the block around it.
-/
namespace PubspecTidy.Yaml.Plain

def isFlowIndicator (c : Char) : Bool :=
  c = ',' || c = '[' || c = ']' || c = '\x7b' || c = '\x7d'

/-- Whether a colon before this text ends the scalar. -/
def colonEndsAt (inFlow : Bool) (cs : List Char) : Bool :=
  gapAt cs || (inFlow && (cs.head?.map isFlowIndicator).getD false)

/-- The characters of the scalar up to the next gap or its end. -/
def wordLength (inFlow : Bool) : List Char → Nat
  | [] => 0
  | c :: rest =>
    if isGap c || (c = ':' && colonEndsAt inFlow rest)
        || (inFlow && (isFlowIndicator c || c = '?')) then 0
    else wordLength inFlow rest + 1

/-- The line ends after the first one, and whether a document starts or ends after one. -/
def takeBreaks : Nat → Cursor → (List Char × Bool) × Cursor
  | 0, c => (([], false), c)
  | fuel + 1, c =>
    if c.rest.head? == some ' ' then takeBreaks fuel c.next
    else
      match c.takeBreak? with
      | some (b, c) =>
        if c.markerAt then (([], true), c)
        else
          let ((bs, stop), c) := takeBreaks fuel c
          ((b :: bs, stop), c)
      | none => (([], false), c)

/-- A gap: what it is read as, none if the scalar ends with it, and whether it has a line end. -/
structure Gap where
  text : Option (List Char)
  hasBreak : Bool

def takeGap (c : Cursor) : Gap × Cursor :=
  let (spaces, c) := c.takeWhile (· = ' ')
  match c.takeBreak? with
  | none => (⟨if spaces.isEmpty then none else some spaces, false⟩, c)
  | some (b, c) =>
    if c.markerAt then (⟨none, true⟩, c)
    else
      let ((bs, stop), c) := takeBreaks (c.rest.length + 1) c
      if stop then (⟨none, true⟩, c)
      else if b ≠ '\n' then (⟨some (b :: bs), true⟩, c)
      else if bs.isEmpty then (⟨some [' '], true⟩, c)
      else (⟨some bs, true⟩, c)

/-- A scalar as read so far, and whether the last gap had a line end. -/
structure Taken where
  text : List Char
  brokenAfter : Bool

/-- The words of the scalar; `gap` stands before the next one if there is one. -/
def takeWords (inFlow : Bool) (indent : Int) : Nat → List Char → Bool → Cursor → Taken × Cursor
  | 0, _, broken, c => (⟨[], broken⟩, c)
  | fuel + 1, gap, broken, c =>
    let n := if c.rest.head? == some '#' then 0 else wordLength inFlow c.rest
    if n = 0 then (⟨[], broken⟩, c)
    else
      let word := c.rest.take n
      let (after, c) := takeGap (c.skip n)
      match after.text with
      | some text =>
        if c.rest.head? == some '#' || (!inFlow && decide ((c.column : Int) < indent)) then
          (⟨gap ++ word, after.hasBreak⟩, c)
        else
          let (taken, c) := takeWords inFlow indent fuel text after.hasBreak c
          (⟨gap ++ word ++ taken.text, taken.brokenAfter⟩, c)
      | none => (⟨gap ++ word, after.hasBreak⟩, c)

/-- A scalar inside a block at `indent`. -/
def take (inFlow : Bool) (indent : Int) (c : Cursor) : Taken × Cursor :=
  takeWords inFlow (indent + 1) (c.rest.length + 1) [] false c

end PubspecTidy.Yaml.Plain

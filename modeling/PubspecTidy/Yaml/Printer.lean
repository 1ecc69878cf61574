import PubspecTidy.Yaml.Outline

/-!
# Writing YAML

A scalar is written plainly if it reads back as what it is, else between single quotes, and between
double quotes if it holds what only escapes can show. Lines are broken at spaces beyond 80 columns.
-/
namespace PubspecTidy.Yaml

/-- What is written, and where the next character goes. -/
structure Pen where
  /-- The text so far, the last character first. -/
  text : List Char
  column : Nat
  /-- Whether a gap has just been written. -/
  afterGap : Bool
  /-- Whether nothing but indentation stands on the line. -/
  atIndent : Bool

namespace Pen

def width : Nat := 80

def start : Pen := ⟨[], 0, true, true⟩

/-- Writes characters without a line end. -/
def put (p : Pen) (cs : List Char) : Pen :=
  { p with text := cs.reverse ++ p.text, column := p.column + cs.length }

def lineBreak (p : Pen) (c : Char) : Pen := ⟨c :: p.text, 0, true, true⟩

/-- Goes to the indentation, on a new line unless it is already there. -/
def toIndent (p : Pen) (indent : Nat) : Pen :=
  let p :=
    if !p.atIndent || decide (indent < p.column) || (p.column == indent && !p.afterGap) then
      p.lineBreak '\n'
    else p
  if p.column < indent then
    { p.put (List.replicate (indent - p.column) ' ') with afterGap := true }
  else p

/-- Writes an indicator, with a space before it if it needs one. -/
def indicator (p : Pen) (cs : List Char) (needsGap : Bool) (gapAfter keepsIndent : Bool := false) :
    Pen :=
  let p := p.put (if p.afterGap || !needsGap then cs else ' ' :: cs)
  { p with afterGap := gapAfter, atIndent := p.atIndent && keepsIndent }

/-- Ends the gap before a scalar. -/
def inText (p : Pen) : Pen := { p with afterGap := false, atIndent := false }

end Pen

/-! ## Styles of scalars -/

inductive Style where
  | plain
  | single
  | double
  deriving DecidableEq, Repr

/-- What the characters of a text permit. -/
structure Looks where
  empty : Bool
  multiline : Bool
  flowPlain : Bool
  blockPlain : Bool
  single : Bool

namespace Looks

def isLineBreak (c : Char) : Bool := c = '\n' || c = '\u0085' || c = '\u2028' || c = '\u2029'

/-- Whether a character ends a word. -/
def isGapOrNull (c : Char) : Bool := c = '\x00' || isGap c

/-- Whether a character can only be written by an escape. -/
def isSpecial (unicode : Bool) (c : Char) : Bool :=
  if c = '\n' ∨ (' ' ≤ c ∧ c ≤ '~') then false
  else
    let shown := c = '\u0085' || (decide ('\u00A0' ≤ c) && decide (c ≤ '\uD7FF'))
      || (decide ('\uE000' ≤ c) && decide (c ≤ '\uFFFD'))
      || (decide (0x10000 ≤ c.toNat) && decide (c.toNat < 0x10FFFF) && (Text.half? c).isNone)
    !(shown && c != byteOrderMark && unicode)

/-- What is found in a text from left to right. -/
structure Found where
  flow : Bool := false
  block : Bool := false
  breaks : Bool := false
  special : Bool := false
  spaceAfterBreak : Bool := false
  breakAfterSpace : Bool := false

def merge (a b : Found) : Found :=
  ⟨a.flow || b.flow, a.block || b.block, a.breaks || b.breaks, a.special || b.special,
   a.spaceAfterBreak || b.spaceAfterBreak, a.breakAfterSpace || b.breakAfterSpace⟩

/-- Whether the next character ends a word. -/
def gapNext : List Char → Bool
  | [] => true
  | c :: _ => isGapOrNull c

def ofFirst (c : Char) (rest : List Char) : Found :=
  let any := "#,[]\x7b\x7d&*!|>'\"%@`".toList.contains c || (c = '-' && gapNext rest)
  let mark := c = '?' || c = ':'
  { flow := any || mark, block := any || (mark && gapNext rest) }

def ofLater (before c : Char) (rest : List Char) : Found :=
  let comment := c = '#' && isGapOrNull before
  { flow := ",?[]\x7b\x7d".toList.contains c || c = ':' || comment
    block := (c = ':' && gapNext rest) || comment }

def ofChar (unicode : Bool) (before : Option Char) (c : Char) : Found :=
  { breaks := isLineBreak c
    special := isSpecial unicode c
    spaceAfterBreak := c = ' ' && (before.map isLineBreak).getD false
    breakAfterSpace := isLineBreak c && before == some ' ' }

def find (unicode : Bool) : Option Char → List Char → Found
  | _, [] => {}
  | before, c :: rest =>
    let here :=
      match before with
      | none => ofFirst c rest
      | some b => ofLater b c rest
    merge (merge here (ofChar unicode before c)) (find unicode (some c) rest)

def isEdge (c : Option Char) : Bool := (c.map fun c => c = ' ' || isLineBreak c).getD false

def of (unicode : Bool) (cs : List Char) : Looks :=
  if cs.isEmpty then ⟨true, false, false, true, true⟩
  else
    let found := find unicode none cs
    let marker := ['-', '-', '-'].isPrefixOf cs || ['.', '.', '.'].isPrefixOf cs
    let hard := found.spaceAfterBreak || found.breakAfterSpace || found.special
    let noPlain := hard || found.breaks || isEdge cs.head? || isEdge cs.getLast? || marker
    { empty := false
      multiline := found.breaks
      flowPlain := !noPlain && !found.flow
      blockPlain := !noPlain && !found.block
      single := !hard }

end Looks

/-- The place of a scalar. -/
structure Place where
  inFlow : Bool
  simpleKey : Bool
  indent : Nat
  unicode : Bool

/-- The style of a text with a tag. Plain style needs that the text reads back with the tag. -/
def styleOf (place : Place) (tag : Tag) (text : String) (block : Bool) : Style :=
  let looks := Looks.of place.unicode text.toList
  let awkwardKey := place.simpleKey && (looks.empty || looks.multiline)
  if block then .double
  else if Tag.ofPlain text = tag && !awkwardKey
      && (if place.inFlow then looks.flowPlain else looks.blockPlain) then .plain
  else if looks.single && !(place.simpleKey && looks.multiline) then .single
  else .double

/-! ## The three styles -/

/-- A run of characters of one kind. -/
def takeRun (p : Char → Bool) (cs : List Char) : List Char × List Char :=
  (cs.takeWhile p, cs.dropWhile p)

/-- Spaces inside a scalar; a single one beyond the width becomes a line end. -/
def putSpaces (pen : Pen) (indent : Nat) (mayBreak : Bool) (spaces : List Char) : Pen :=
  if spaces.length = 1 ∧ Pen.width < pen.column ∧ mayBreak then pen.toIndent indent
  else pen.put spaces

def putPlain (split : Bool) (indent : Nat) : Nat → List Char → Pen → Pen
  | 0, _, pen => pen
  | fuel + 1, cs, pen =>
    match cs with
    | [] => pen
    | c :: _ =>
      if c = ' ' then
        let (spaces, rest) := takeRun (· = ' ') cs
        putPlain split indent fuel rest (putSpaces pen indent split spaces).inText
      else
        let (word, rest) := takeRun (· != ' ') cs
        putPlain split indent fuel rest (pen.put word)

def writePlain (split : Bool) (indent : Nat) (cs : List Char) (pen : Pen) : Pen :=
  if cs.isEmpty then pen
  else
    let pen := if pen.afterGap then pen else pen.put [' ']
    putPlain split indent (cs.length + 1) cs pen.inText

/-- Line ends inside single quotes: one more than there are, if the first is a line feed. -/
def putBreaks (breaks : List Char) (pen : Pen) : Pen :=
  let pen := if breaks.head? == some '\n' then pen.lineBreak '\n' else pen
  breaks.foldl Pen.lineBreak pen

def putSingle (split : Bool) (indent : Nat) : Nat → Bool → List Char → Pen → Pen
  | 0, _, _, pen => pen
  | fuel + 1, first, cs, pen =>
    match cs with
    | [] => pen
    | c :: more =>
      if c = ' ' then
        let (spaces, rest) := takeRun (· = ' ') cs
        let mayBreak := split && !first && !rest.isEmpty
        putSingle split indent fuel false rest (putSpaces pen indent mayBreak spaces)
      else if Looks.isLineBreak c then
        let (breaks, rest) := takeRun Looks.isLineBreak cs
        putSingle split indent fuel false rest ((putBreaks breaks pen).toIndent indent)
      else if c = '\'' then putSingle split indent fuel false more (pen.put ['\'', '\''])
      else
        let (word, rest) :=
          takeRun (fun c => c != ' ' && c != '\'' && !Looks.isLineBreak c) cs
        putSingle split indent fuel false rest (pen.put word)

def writeSingle (split : Bool) (indent : Nat) (cs : List Char) (pen : Pen) : Pen :=
  (putSingle split indent (cs.length + 1) true cs (pen.indicator ['\''] true)).indicator ['\''] false

/-- The letter that stands for a character after a backslash. -/
def escapeLetters : List (Char × Char) :=
  [('\x00', '0'), ('\x07', 'a'), ('\x08', 'b'), ('\t', 't'), ('\n', 'n'), ('\x0B', 'v'),
   ('\x0C', 'f'), ('\r', 'r'), ('\x1B', 'e'), ('"', '"'), ('\\', '\\'), ('\u0085', 'N'),
   ('\u00A0', '_'), ('\u2028', 'L'), ('\u2029', 'P')]

/-- Whether a character stands for itself between double quotes. -/
def standsAlone (unicode : Bool) (c : Char) : Bool :=
  (decide (' ' ≤ c) && decide (c ≤ '~') && c != '"' && c != '\\')
    || (unicode && c != '\u2028' && c != '\u2029' && c != byteOrderMark
      && ((decide ('\u00A0' ≤ c) && decide (c ≤ '\uD7FF'))
        || (decide ('\uE000' ≤ c) && decide (c ≤ '\uFFFD'))))

def escapeChar (c : Char) : List Char :=
  match escapeLetters.lookup c with
  | some e => ['\\', e]
  | none =>
    let n := Text.codeOf c
    if n ≤ 0xFF then ['\\', 'x'] ++ Text.hexDigits true 2 n
    else if n ≤ 0xFFFF then ['\\', 'u'] ++ Text.hexDigits true 4 n
    else ['\\', 'U'] ++ Text.hexDigits true 8 n

/-- Text between double quotes, where `run` are the characters not written yet, the last one first.
Beyond the width the line is broken by a backslash, before a space or next to an escape; a space at
the start of the next line needs a backslash too. -/
def putDouble (split unicode : Bool) (indent : Nat) (isFirst : Bool) :
    List Char → List Char → Pen → Pen
  | [], run, pen => pen.put run.reverse
  | c :: rest, run, pen =>
    let alone := standsAlone unicode c
    let (pen, run) := if alone then (pen, run) else ((pen.put run.reverse).put (escapeChar c), [])
    let full :=
      if alone then decide (Pen.width < pen.column + run.length)
      else decide (Pen.width + 1 < pen.column)
    if split && !isFirst && !rest.isEmpty && (c = ' ' || run.isEmpty) && full then
      let pen := ((pen.put (run.reverse ++ ['\\'])).toIndent indent).inText
      let next := if alone then c :: rest else rest
      let pen := if next.head? == some ' ' then pen.put ['\\'] else pen
      putDouble split unicode indent false rest (if alone then [c] else []) pen
    else putDouble split unicode indent false rest (if alone then c :: run else run) pen

def writeDouble (split unicode : Bool) (indent : Nat) (cs : List Char) (pen : Pen) : Pen :=
  (putDouble split unicode indent true cs [] (pen.indicator ['"'] true)).indicator ['"'] false

/-! ## Nodes -/

def tagText (tag : Tag) : List Char :=
  match Tag.names.find? fun p => p.2 = tag with
  | some (name, _) => '!' :: '!' :: name.toList
  | none => []

def writeAnchor (anchor : Option String) (pen : Pen) : Pen :=
  match anchor with
  | some a => pen.indicator ('&' :: a.toList) true
  | none => pen

/-- A scalar, with its tag where the style does not tell it. -/
def writeScalar (place : Place) (anchor : Option String) (tag : Tag) (text : String) (block : Bool)
    (pen : Pen) : Pen :=
  let style := styleOf place tag text block
  let pen := writeAnchor anchor pen
  let implied := if style = .plain then Tag.ofPlain text = tag else tag = .text
  let pen := if implied then pen else pen.indicator (tagText tag) true
  let split := !place.simpleKey
  match style with
  | .plain => writePlain split place.indent text.toList pen
  | .single => writeSingle split place.indent text.toList pen
  | .double => writeDouble split place.unicode place.indent text.toList pen

/-- Whether an outline is short and simple enough to be a key without an indicator. The tag counts
even where it is not written. -/
def isSimpleKey (unicode : Bool) (o : Outline) : Bool :=
  let anchorLength (a : Option String) : Nat := (a.map fun a => a.toList.length).getD 0
  match o with
  | .alias name => decide (name.toList.length < 128)
  | .scalar anchor tag text _ =>
    let looks := Looks.of unicode text.toList
    let length := anchorLength anchor + (tagText tag).length + text.toList.length
    decide (length < 128) && !looks.empty && !looks.multiline
  | .sequence anchor items => items.isEmpty && decide (anchorLength anchor + 5 < 128)
  | .mapping anchor tag entries =>
    entries.isEmpty && decide (anchorLength anchor + (tagText tag).length < 128)

/-- The line end before an item of a flow collection beyond the width. -/
def breakLong (indent : Nat) (pen : Pen) : Pen :=
  if Pen.width < pen.column then pen.toIndent indent else pen

mutual
/-- A node inside a flow collection at `indent`, or the root. -/
def writeFlow (unicode simpleKey : Bool) (indent : Nat) : Outline → Pen → Pen
  | .alias name, pen => pen.indicator ('*' :: name.toList) true
  | .scalar anchor tag text block, pen =>
    writeScalar ⟨true, simpleKey, indent + 2, unicode⟩ anchor tag text block pen
  | .sequence anchor items, pen =>
    let pen := (writeAnchor anchor pen).indicator ['['] true true
    (writeFlowItems unicode (indent + 2) true items pen).indicator [']'] false
  | .mapping anchor tag entries, pen =>
    let pen := writeAnchor anchor pen
    let pen := if tag = .mapping then pen else pen.indicator (tagText tag) true
    let pen := pen.indicator ['\x7b'] true true
    (writeFlowEntries unicode (indent + 2) true entries pen).indicator ['\x7d'] false

def writeFlowItems (unicode : Bool) (indent : Nat) (first : Bool) : List Outline → Pen → Pen
  | [], pen => pen
  | o :: os, pen =>
    let pen := if first then pen else pen.indicator [','] false
    let pen := breakLong indent pen
    writeFlowItems unicode indent false os (writeFlow unicode false indent o pen)

def writeFlowEntries (unicode : Bool) (indent : Nat) (first : Bool) :
    List (Outline × Outline) → Pen → Pen
  | [], pen => pen
  | (key, value) :: rest, pen =>
    let pen := if first then pen else pen.indicator [','] false
    let pen := breakLong indent pen
    let pen :=
      if isSimpleKey unicode key then
        (writeFlow unicode true indent key pen).indicator [':'] false
      else
        let pen := writeFlow unicode false indent key (pen.indicator ['?'] true)
        (breakLong indent pen).indicator [':'] true
    writeFlowEntries unicode indent false rest (writeFlow unicode false indent value pen)
end

/-- A value as one flow collection, in ASCII alone, unless something in it is too long. -/
def flowText? (doc : Document) (v : Value) : Option String :=
  if doc.isWritable v then
    let pen := writeFlow false false 0 (Outline.ofValue doc v) Pen.start
    some (Text.trimmed (String.ofList pen.text.reverse))
  else none

/-- One entry of a block mapping of texts. -/
def writeBlockEntry (key value : String) (pen : Pen) : Pen :=
  let pen := pen.toIndent 0
  let scalar (simpleKey : Bool) (text : String) : Pen → Pen :=
    writeScalar ⟨false, simpleKey, 2, true⟩ none .text text false
  let pen :=
    if isSimpleKey true (.scalar none .text key false) then
      (scalar true key pen).indicator [':'] false
    else
      let pen := scalar false key (pen.indicator ['?'] true false true)
      (pen.toIndent 0).indicator [':'] true false true
  scalar false value pen

/-- Texts under texts as a block mapping. -/
def blockText (entries : List (String × String)) : String :=
  if entries.isEmpty then "\x7b\x7d\n"
  else
    let pen := entries.foldl (fun pen e => writeBlockEntry e.1 e.2 pen) Pen.start
    String.ofList ('\n' :: pen.text).reverse

end PubspecTidy.Yaml

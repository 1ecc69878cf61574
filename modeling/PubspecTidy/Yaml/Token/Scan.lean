import PubspecTidy.Yaml.Token.Block
import PubspecTidy.Yaml.Token.Name
import PubspecTidy.Yaml.Token.Plain
import PubspecTidy.Yaml.Token.Quoted

/-!
# The tokens of a YAML text

Tokens are taken from left to right. Whether something is the key of a mapping shows only at the
colon after it, so the place of a possible key is remembered, and the tokens that open the key are
woven in there. A key without an indicator has to stand on the line of its colon and at most 1024
characters before it.
-/
namespace PubspecTidy.Yaml

/-- Something that may turn out to be a key. -/
structure PossibleKey where
  /-- The number of tokens before it. -/
  place : Nat
  /-- Whether it has to be a key, since it starts a line of a block mapping. -/
  required : Bool
  index : Nat
  line : Nat
  column : Nat

structure Scanner where
  cursor : Cursor
  /-- The tokens so far, the last one first. -/
  tokens : List Token
  indent : Int
  /-- The indentations around the current one. -/
  outerIndents : List Int
  /-- Whether a key without an indicator may start here. -/
  keyAllowed : Bool
  key : Option PossibleKey
  /-- The possible keys of the collections around the current flow collection. -/
  outerKeys : List (Option PossibleKey)
  done : Bool

namespace Scanner

def ofText (cs : List Char) : Scanner where
  cursor := Cursor.ofText (if cs.head? == some byteOrderMark then cs.drop 1 else cs)
  tokens := []
  indent := -1
  outerIndents := []
  keyAllowed := true
  key := none
  outerKeys := []
  done := false

def inFlow (s : Scanner) : Bool := !s.outerKeys.isEmpty

def emit (s : Scanner) (t : Token) : Scanner := { s with tokens := t :: s.tokens }

/-- Emits a token of one character. -/
def emitIndicator (s : Scanner) (t : Token) : Scanner :=
  { s.emit t with cursor := s.cursor.next }

/-- Weaves tokens in after the first `place` ones. -/
def weave (s : Scanner) (place : Nat) (newestFirst : List Token) : Scanner :=
  let later := s.tokens.length - place
  { s with tokens := s.tokens.take later ++ newestFirst ++ s.tokens.drop later }

/-- Moves over spaces, comments and line ends; a line end in a block allows a key. -/
def skipGap : Nat → Scanner → Scanner
  | 0, s => s
  | fuel + 1, s =>
    let c := s.cursor.skipSpaces.skipComment
    match c.takeBreak? with
    | some (_, c) => skipGap fuel { s with cursor := c, keyAllowed := s.keyAllowed || !s.inFlow }
    | none => { s with cursor := c }

def maxKeyLength : Nat := 1024

/-- Gives up a possible key that is too far back. -/
def dropStale (c : Cursor) (key : Option PossibleKey) : Except Fault (Option PossibleKey) :=
  match key with
  | none => .ok none
  | some k =>
    if k.line ≠ c.line ∨ maxKeyLength < c.index - k.index then
      if k.required then .error .malformed else .ok none
    else .ok (some k)

def dropStaleKeys (s : Scanner) : Except Fault Scanner := do
  let outerKeys ← s.outerKeys.mapM (dropStale s.cursor)
  let key ← dropStale s.cursor s.key
  return { s with key, outerKeys }

/-- Gives up the possible key here. -/
def dropKey (s : Scanner) : Except Fault Scanner :=
  match s.key with
  | some k => if k.required then .error .malformed else .ok { s with key := none }
  | none => .ok s

/-- Remembers that what starts here may be a key. -/
def saveKey (s : Scanner) : Except Fault Scanner :=
  if !s.keyAllowed then .ok s
  else do
    let s ← s.dropKey
    let c := s.cursor
    let required := !s.inFlow && s.indent = (c.column : Int)
    return { s with key := some ⟨s.tokens.length, required, c.index, c.line, c.column⟩ }

/-- Closes the blocks indented deeper than a column. -/
def closeFrom (column : Int) : Int → List Int → List Token → (Int × List Int) × List Token
  | indent, [], tokens => ((indent, []), tokens)
  | indent, outer :: outers, tokens =>
    if column < indent then closeFrom column outer outers (.blockEnd :: tokens)
    else ((indent, outer :: outers), tokens)

def closeBlocks (s : Scanner) (column : Int) : Scanner :=
  if s.inFlow then s
  else
    let ((indent, outers), tokens) := closeFrom column s.indent s.outerIndents s.tokens
    { s with indent := indent, outerIndents := outers, tokens := tokens }

/-- Makes a column the indentation if it is deeper than the current one; says whether it is. -/
def openBlock (s : Scanner) (column : Nat) : Bool × Scanner :=
  if s.indent < (column : Int) then
    (true, { s with indent := column, outerIndents := s.indent :: s.outerIndents })
  else (false, s)

/-- Opens a block here with a token, where a key is allowed and the column is deeper. -/
def openBlockHere (s : Scanner) (t : Token) : Except Fault Scanner :=
  if s.inFlow then .ok s
  else if !s.keyAllowed then .error .malformed
  else
    let (opened, s) := s.openBlock s.cursor.column
    .ok (if opened then s.emit t else s)

def takeEnd (s : Scanner) : Except Fault Scanner := do
  let s ← (s.closeBlocks (-1)).dropKey
  return { s.emit .streamEnd with done := true }

def takeDirective (s : Scanner) : Except Fault Scanner := do
  let s ← (s.closeBlocks (-1)).dropKey
  let (t, c) ← Name.takeDirective s.cursor
  return { s.emit t with cursor := c, keyAllowed := false }

def takeMarker (s : Scanner) (t : Token) : Except Fault Scanner := do
  let s ← (s.closeBlocks (-1)).dropKey
  return { s.emit t with cursor := s.cursor.skip 3, keyAllowed := false }

def takeFlowStart (s : Scanner) (t : Token) : Except Fault Scanner := do
  let s ← s.saveKey
  return { s.emitIndicator t with key := none, outerKeys := s.key :: s.outerKeys, keyAllowed := true }

/-- Closes a flow collection; without one to close the text is no document. -/
def takeFlowEnd (s : Scanner) (t : Token) : Except Fault Scanner := do
  let s ← s.dropKey
  match s.outerKeys with
  | [] => .error .malformed
  | key :: outerKeys =>
    return { s.emitIndicator t with key := key, outerKeys := outerKeys, keyAllowed := false }

def takeFlowEntry (s : Scanner) : Except Fault Scanner := do
  let s ← s.dropKey
  return { s.emitIndicator .flowEntry with keyAllowed := true }

def takeBlockEntry (s : Scanner) : Except Fault Scanner := do
  let s ← s.openBlockHere .blockSequenceStart
  let s ← s.dropKey
  return { s.emitIndicator .blockEntry with keyAllowed := true }

def takeKey (s : Scanner) : Except Fault Scanner := do
  let s ← s.openBlockHere .blockMappingStart
  let s ← s.dropKey
  return { s.emitIndicator .key with keyAllowed := !s.inFlow }

/-- A colon: either what was remembered turns out to be a key, or the key is empty. -/
def takeValue (s : Scanner) : Except Fault Scanner :=
  match s.key with
  | some k =>
    let s := { s with key := none, keyAllowed := false }
    let (opened, s) := if s.inFlow then (false, s) else s.openBlock k.column
    let s := s.weave k.place (if opened then [.key, .blockMappingStart] else [.key])
    .ok (s.emitIndicator .value)
  | none => do
    let s ← s.openBlockHere .blockMappingStart
    return { s.emitIndicator .value with keyAllowed := !s.inFlow }

def takeAlias (s : Scanner) : Except Fault Scanner := do
  let s ← s.saveKey
  let (name, c) ← Name.takeAnchor s.cursor
  return { s.emit (.alias name) with cursor := c, keyAllowed := false }

def takeAnchor (s : Scanner) : Except Fault Scanner := do
  let s ← s.saveKey
  let (name, c) ← Name.takeAnchor s.cursor
  return { s.emit (.anchor name) with cursor := c, keyAllowed := false }

def takeTag (s : Scanner) : Except Fault Scanner := do
  let s ← s.saveKey
  let (t, c) ← Name.takeTag s.cursor
  return { s.emit t with cursor := c, keyAllowed := false }

def takeBlockScalar (s : Scanner) (folded : Bool) : Except Fault Scanner := do
  let s ← s.dropKey
  let (text, c) ← Block.take folded s.indent s.cursor
  return { s.emit (.scalar text false) with cursor := c, keyAllowed := true }

def takeQuoted (s : Scanner) (double : Bool) : Except Fault Scanner := do
  let s ← s.saveKey
  let (text, c) ← Quoted.take double s.cursor
  return { s.emit (.scalar text false) with cursor := c, keyAllowed := false }

def takePlain (s : Scanner) : Except Fault Scanner := do
  let s ← s.saveKey
  let (taken, c) := Plain.take s.inFlow s.indent s.cursor
  let t := Token.scalar (String.ofList taken.text) true
  return { s.emit t with cursor := c, keyAllowed := taken.brokenAfter }

/-- The characters that mean something at the start of a token. -/
def isIndicator (c : Char) : Bool := "-?:,[]\x7b\x7d#&*!|>'\"%@`".toList.contains c

/-- Whether a plain scalar may start with a character before some text. -/
def startsPlain (inFlow : Bool) (ch : Char) (rest : List Char) : Bool :=
  !(isGap ch || isIndicator ch)
    || (!gapAt rest && (ch = '-' || (!inFlow && (ch = '?' || ch = ':'))))

/-- The tokens of what starts with a character at the cursor. -/
def takeAt (s : Scanner) (ch : Char) (rest : List Char) : Except Fault Scanner :=
  let first := s.cursor.column = 0
  if first ∧ ch = '%' then s.takeDirective
  else if first ∧ s.cursor.markerAt then
    s.takeMarker (if ch = '-' then .documentStart else .documentEnd)
  else if ch = '[' then s.takeFlowStart .flowSequenceStart
  else if ch = '\x7b' then s.takeFlowStart .flowMappingStart
  else if ch = ']' then s.takeFlowEnd .flowSequenceEnd
  else if ch = '\x7d' then s.takeFlowEnd .flowMappingEnd
  else if ch = ',' then s.takeFlowEntry
  else if ch = '-' ∧ gapAt rest then s.takeBlockEntry
  else if ch = '?' ∧ (s.inFlow ∨ gapAt rest) then s.takeKey
  else if ch = ':' ∧ (s.inFlow ∨ gapAt rest) then s.takeValue
  else if ch = '*' then s.takeAlias
  else if ch = '&' then s.takeAnchor
  else if ch = '!' then s.takeTag
  else if ch = '|' ∧ !s.inFlow then s.takeBlockScalar false
  else if ch = '>' ∧ !s.inFlow then s.takeBlockScalar true
  else if ch = '\'' then s.takeQuoted false
  else if ch = '"' then s.takeQuoted true
  else if startsPlain s.inFlow ch rest then s.takePlain
  else .error .malformed

/-- The tokens of one step. -/
def step (s : Scanner) : Except Fault Scanner := do
  let s := skipGap (s.cursor.rest.length + 1) s
  let s ← s.dropStaleKeys
  let s := s.closeBlocks s.cursor.column
  match s.cursor.rest with
  | [] => s.takeEnd
  | ch :: rest => s.takeAt ch rest

/-- The number of tokens that are settled: those before the first possible key. -/
def settled (s : Scanner) : Nat :=
  (s.key :: s.outerKeys).foldl
    (fun n key =>
      match key with
      | some k => min n k.place
      | none => n) s.tokens.length

/-- The tokens of a text: all of them, or those that were settled before the first fault. -/
structure Scanned where
  tokens : List Token
  fault : Option Fault

/-- What a fault leaves of the tokens. -/
def stopped (s : Scanner) (f : Fault) : Scanned := ⟨s.tokens.reverse.take s.settled, some f⟩

/-- Every step but the last one takes a character, so the length of the text is enough fuel. -/
def run : Nat → Scanner → Scanned
  | 0, s => s.stopped .malformed
  | fuel + 1, s =>
    if s.done then ⟨s.tokens.reverse, none⟩
    else
      match s.step >>= dropStaleKeys with
      | .ok s => run fuel s
      | .error f => s.stopped f

end Scanner

/-- The characters that a YAML text may hold at all. -/
def isPermitted (c : Char) : Bool :=
  c = '\t' || c = '\n' || c = '\r' || c = '\u0085'
    || (decide (' ' ≤ c) && decide (c ≤ '~'))
    || (decide ('\u00A0' ≤ c) && decide (c ≤ '\uD7FF'))
    || (decide ('\uE000' ≤ c) && decide (c ≤ '\uFFFD'))
    || (decide (0x10000 ≤ c.toNat) && (Text.half? c).isNone)

/-- The tokens of a text. -/
def scan (text : String) : Scanner.Scanned :=
  let cs := text.toList
  if cs.all isPermitted then Scanner.run (cs.length + 2) (Scanner.ofText cs)
  else ⟨[], some .malformed⟩

end PubspecTidy.Yaml

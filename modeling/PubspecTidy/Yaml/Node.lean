import PubspecTidy.Table
import PubspecTidy.Yaml.Tag
import PubspecTidy.Yaml.Token.Scan

/-!
# The nodes of a YAML document

Nodes are numbered in the order in which they start, and refer to each other by number: an alias is
the number of the node with its anchor, so that a node may stand in several places and even inside
itself.
-/
namespace PubspecTidy.Yaml

inductive Content where
  | scalar (text : String)
  | sequence (items : List Nat)
  | mapping (entries : List (Nat × Nat))
  deriving DecidableEq, Repr

structure Node where
  tag : Tag
  content : Content
  deriving DecidableEq, Repr

/-- The nodes of a document and the number of its root; an empty text has no root. -/
structure Graph where
  nodes : Table Nat Node
  root : Option Nat
  deriving Repr

/-- What has been read of a document. -/
structure Composer where
  tokens : List Token
  /-- What is wrong behind the last token, if anything is. -/
  fault : Option Fault
  nodes : Table Nat Node
  count : Nat
  anchors : Table String Nat
  handles : Table String String

abbrev Compose := StateT Composer (Except Fault)

namespace Compose

def refuse {α : Type} : Compose α := throw .malformed

def peek : Compose Token := do
  let s ← get
  match s.tokens with
  | t :: _ => return t
  | [] => throw (s.fault.getD .malformed)

def advance : Compose Unit := modify fun s => { s with tokens := s.tokens.drop 1 }

/-- Takes the next number, under an anchor that is still free. -/
def reserve (anchor : Option String) : Compose Nat := do
  let s ← get
  let anchors ←
    match anchor with
    | none => pure s.anchors
    | some a => if Table.has s.anchors a then refuse else pure (Table.put s.anchors a s.count)
  set { s with count := s.count + 1, anchors := anchors }
  return s.count

def define (id : Nat) (node : Node) : Compose Unit :=
  modify fun s => { s with nodes := (id, node) :: s.nodes }

def scalar (anchor : Option String) (tag : Tag) (text : String) : Compose Nat := do
  let id ← reserve anchor
  define id ⟨tag, .scalar text⟩
  return id

/-- The scalar that stands where nothing is written. -/
def empty : Compose Nat := scalar none .null ""

/-- The complete tag of a tag as written. -/
def resolveTag (handle : Option String) (suffix : String) : Compose String := do
  match handle with
  | none => return suffix
  | some h =>
    match Table.get? (← get).handles h with
    | some start => return start ++ suffix
    | none => refuse

/-- A tag as it is written. -/
def takeTag? : Compose (Option (Option String × String)) := do
  match ← peek with
  | .tag handle suffix =>
    advance
    return some (handle, suffix)
  | _ => return none

def takeAnchor? : Compose (Option String) := do
  match ← peek with
  | .anchor name =>
    advance
    return some name
  | _ => return none

/-- An anchor and a tag in either order. The tag is completed after both have been taken. -/
def takeProperties : Compose (Option String × Option String) := do
  let (anchor, tag) ←
    match ← takeAnchor? with
    | some a => pure (some a, ← takeTag?)
    | none =>
      match ← takeTag? with
      | some t => pure (← takeAnchor?, some t)
      | none => pure (none, none)
  match tag with
  | some (handle, suffix) => return (anchor, some (← resolveTag handle suffix))
  | none => return (anchor, none)

/-- The tag that leaves the choice to the reader. -/
def nonSpecific : String := "!"

def scalarTag (tag : Option String) (plain : Bool) (text : String) : Tag :=
  match tag with
  | none => if plain then Tag.ofPlain text else .text
  | some t => if t == nonSpecific then Tag.ofPlain text else Tag.ofUri t

def collectionTag (tag : Option String) (usual : Tag) : Tag :=
  match tag with
  | none => usual
  | some t => if t == nonSpecific then usual else Tag.ofUri t

/-- Whether a token ends a block entry before its node. -/
def endsItem : Token → Bool
  | .blockEntry | .blockEnd => true
  | _ => false

def endsIndentlessItem : Token → Bool
  | .blockEntry | .key | .value | .blockEnd => true
  | _ => false

def endsBlockPart : Token → Bool
  | .key | .value | .blockEnd => true
  | _ => false

def endsFlowPart (close : Token) (t : Token) : Bool := t == .flowEntry || t == close

mutual
/-- A node: in a block, block collections too, and a sequence that is not indented where the value
of a key may be one. Between two calls without a token taken there are at most two others, so four
times the number of tokens is enough fuel. -/
def node (block indentless : Bool) : Nat → Compose Nat
  | 0 => refuse
  | fuel + 1 => do
    match ← peek with
    | .alias name =>
      advance
      match Table.get? (← get).anchors name with
      | some id => return id
      | none => refuse
    | _ =>
      let (anchor, tag) ← takeProperties
      let collect (t : Tag) (content : Compose Content) : Compose Nat := do
        let id ← reserve anchor
        let c ← content
        define id ⟨collectionTag tag t, c⟩
        return id
      match ← peek with
      | .scalar text plain =>
        advance
        scalar anchor (scalarTag tag plain text) text
      | .flowSequenceStart =>
        advance
        collect .sequence (return .sequence (← flowItems true fuel))
      | .flowMappingStart =>
        advance
        collect .mapping (return .mapping (← flowEntries true fuel))
      | t =>
        if t == .blockSequenceStart && block then
          advance
          collect .sequence (return .sequence (← blockItems fuel))
        else if t == .blockMappingStart && block then
          advance
          collect .mapping (return .mapping (← blockEntries fuel))
        else if t == .blockEntry && indentless then
          collect .sequence (return .sequence (← indentlessItems fuel))
        else if anchor.isSome || tag.isSome then scalar anchor (scalarTag tag true "") ""
        else refuse

def blockItems : Nat → Compose (List Nat)
  | 0 => refuse
  | fuel + 1 => do
    match ← peek with
    | .blockEntry =>
      advance
      let item ← if endsItem (← peek) then empty else node true false fuel
      return item :: (← blockItems fuel)
    | .blockEnd =>
      advance
      return []
    | _ => refuse

/-- The items of a sequence at the indentation of its key. -/
def indentlessItems : Nat → Compose (List Nat)
  | 0 => refuse
  | fuel + 1 => do
    match ← peek with
    | .blockEntry =>
      advance
      let item ← if endsIndentlessItem (← peek) then empty else node true false fuel
      return item :: (← indentlessItems fuel)
    | _ => return []

def blockEntries : Nat → Compose (List (Nat × Nat))
  | 0 => refuse
  | fuel + 1 => do
    let t ← peek
    if t == .blockEnd then
      advance
      return []
    else if t == .key then
      advance
      let key ← if endsBlockPart (← peek) then empty else node true true fuel
      let value ← blockValue fuel
      return (key, value) :: (← blockEntries fuel)
    else refuse

/-- The value after a key; without a colon it is empty. -/
def blockValue : Nat → Compose Nat
  | 0 => refuse
  | fuel + 1 => do
    if (← peek) == .value then
      advance
      if endsBlockPart (← peek) then empty else node true true fuel
    else empty

/-- The items of a flow sequence, with commas between them and perhaps after the last one. An entry
of a mapping may stand for a mapping with that entry alone. -/
def flowItems (first : Bool) : Nat → Compose (List Nat)
  | 0 => refuse
  | fuel + 1 => do
    if (← peek) == .flowSequenceEnd then
      advance
      return []
    else
      if !first then
        if (← peek) == .flowEntry then advance else refuse
      let t ← peek
      if t == .key then
        advance
        let id ← reserve none
        let key ←
          if (← peek) == .value || endsFlowPart .flowSequenceEnd (← peek) then empty
          else node false false fuel
        let value ← flowValue .flowSequenceEnd fuel
        define id ⟨.mapping, .mapping [(key, value)]⟩
        return id :: (← flowItems false fuel)
      else if t == .flowSequenceEnd then
        advance
        return []
      else
        let item ← node false false fuel
        return item :: (← flowItems false fuel)

/-- The entries of a flow mapping; a key may stand alone. -/
def flowEntries (first : Bool) : Nat → Compose (List (Nat × Nat))
  | 0 => refuse
  | fuel + 1 => do
    if (← peek) == .flowMappingEnd then
      advance
      return []
    else
      if !first then
        if (← peek) == .flowEntry then advance else refuse
      let t ← peek
      if t == .key then
        advance
        let key ←
          if (← peek) == .value || endsFlowPart .flowMappingEnd (← peek) then empty
          else node false false fuel
        let value ← flowValue .flowMappingEnd fuel
        return (key, value) :: (← flowEntries false fuel)
      else if t == .flowMappingEnd then
        advance
        return []
      else
        let key ← node false false fuel
        let value ← empty
        return (key, value) :: (← flowEntries false fuel)

def flowValue (close : Token) : Nat → Compose Nat
  | 0 => refuse
  | fuel + 1 => do
    if (← peek) == .value then
      advance
      if endsFlowPart close (← peek) then empty else node false false fuel
    else empty
end

/-- The handles that are known without a directive. -/
def usualHandles : Table String String := [("!", "!"), ("!!", Tag.standard)]

/-- The directives before a document: one version at most, which has to be 1, and no handle
twice. -/
def directives : Nat → Bool → Compose Unit
  | 0, _ => refuse
  | fuel + 1, versionSeen => do
    match ← peek with
    | .versionDirective major =>
      if versionSeen || major != 1 then refuse
      advance
      directives fuel true
    | .tagDirective handle start =>
      let s ← get
      if Table.has s.handles handle then refuse
      set { s with handles := Table.put s.handles handle start, tokens := s.tokens.drop 1 }
      directives fuel versionSeen
    | .otherDirective =>
      advance
      directives fuel versionSeen
    | _ => pure ()

def isDirective : Token → Bool
  | .versionDirective _ | .tagDirective .. | .otherDirective => true
  | _ => false

/-- Makes the usual handles known where no directive gives them another meaning. -/
def addUsualHandles : Compose Unit :=
  modify fun s =>
    { s with handles := s.handles ++ usualHandles.filter fun p => !Table.has s.handles p.1 }

def skipDocumentEnds : Nat → Compose Unit
  | 0 => refuse
  | fuel + 1 => do
    if (← peek) == .documentEnd then
      advance
      skipDocumentEnds fuel

/-- The only document of a text, if it has one. Of a second one no more than its start is read. -/
def document (fuel : Nat) : Compose (Option Nat) := do
  let t ← peek
  if t == .streamEnd then return none
  else
    let root ←
      if isDirective t || t == .documentStart then do
        directives fuel false
        addUsualHandles
        if (← peek) == .documentStart then advance else refuse
        let t ← peek
        if isDirective t || t == .documentStart || t == .documentEnd || t == .streamEnd then empty
        else node true false fuel
      else do
        addUsualHandles
        node true false fuel
    skipDocumentEnds fuel
    if (← peek) == .streamEnd then return some root
    else
      modify fun s => { s with handles := [] }
      directives fuel false
      let _ ← peek
      refuse

end Compose

/-- The document that a text is. -/
def Graph.ofText (text : String) : Except Fault Graph := do
  let scanned := scan text
  let start : Composer := ⟨scanned.tokens, scanned.fault, [], 0, [], []⟩
  let (root, s) ← (Compose.document (4 * scanned.tokens.length + 8)).run start
  return ⟨s.nodes, root⟩

end PubspecTidy.Yaml

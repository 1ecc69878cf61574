import PubspecTidy.Yaml.Node
import PubspecTidy.Yaml.Scalar
import PubspecTidy.Yaml.SetOrder

/-!
# Forming the values of a document

Every node is formed once. A collection is entered later than the one that it stands in, level by
level from the root down, so of several faults the one nearest to the root is reported. When a
mapping is entered, the entries of the mappings merged into it are put in front of its own, and the
mark of the default value among its keys becomes text; both change the nodes themselves, so that what
is formed later sees them changed.
-/
namespace PubspecTidy.Yaml

/-- The nodes as they have become, the values of those formed, and the collections still to be
entered. -/
structure Formation where
  nodes : Table Nat Node
  values : Table Nat Value
  waiting : List Nat

abbrev Form := StateT Formation (Except Fault)

namespace Form

def refuse {α : Type} : Form α := throw .malformed

def nodeOf (id : Nat) : Form Node := do
  match Table.get? (← get).nodes id with
  | some node => return node
  | none => refuse

/-- The entries of a node, which has to be a mapping. -/
def entriesOf (id : Nat) : Form (List (Nat × Nat)) := do
  match (← nodeOf id).content with
  | .mapping entries => return entries
  | _ => refuse

def setNode (id : Nat) (node : Node) : Form Unit :=
  modify fun s => { s with nodes := Table.put s.nodes id node }

def setEntries (id : Nat) (entries : List (Nat × Nat)) : Form Unit := do
  setNode id { ← nodeOf id with content := .mapping entries }

def hasTag (tag : Tag) (id : Nat) : Form Bool := return (← nodeOf id).tag = tag

/-! ## Merging -/

/-- The entries before the first one whose key has a tag, that entry and those after it. -/
def splitAtTag (tag : Tag) :
    List (Nat × Nat) → Form (Option (List (Nat × Nat) × (Nat × Nat) × List (Nat × Nat)))
  | [] => return none
  | e :: rest => do
    if ← hasTag tag e.1 then return some ([], e, rest)
    else
      let found ← splitAtTag tag rest
      return found.map fun (before, e', after) => (e :: before, e', after)

/-- Makes text of the keys that mark a default value. -/
def unmarkDefaults : List (Nat × Nat) → Form Unit
  | [] => return ()
  | e :: rest => do
    let node ← nodeOf e.1
    if node.tag = .default then setNode e.1 { node with tag := .text }
    unmarkDefaults rest

mutual
/-- Takes the entries that merge other mappings out of a mapping, and gives what they merge. Every
call that goes deeper has taken an entry out, so the number of all entries, times that of the items
of a sequence, is enough fuel. -/
def takeMerged : Nat → Nat → Form (List (Nat × Nat))
  | 0, _ => refuse
  | fuel + 1, id => do
    match ← splitAtTag .merge (← entriesOf id) with
    | none => return []
    | some (before, e, after) =>
      setEntries id (before ++ after)
      let merged ←
        match (← nodeOf e.2).content with
        | .mapping _ => flattened fuel e.2
        | .sequence items => (·.reverse.flatten) <$> allFlattened fuel items
        | .scalar _ => refuse
      return merged ++ (← takeMerged fuel id)

/-- The entries of a mapping after those of the mappings merged into it. -/
def flattened : Nat → Nat → Form (List (Nat × Nat))
  | 0, _ => refuse
  | fuel + 1, id => do
    let merged ← takeMerged fuel id
    let own ← entriesOf id
    unmarkDefaults own
    if merged.isEmpty then return own
    else
      setEntries id (merged ++ own)
      return merged ++ own

def allFlattened : Nat → List Nat → Form (List (List (Nat × Nat)))
  | 0, _ => refuse
  | _, [] => return []
  | fuel + 1, id :: ids => do
    let entries ← flattened fuel id
    return entries :: (← allFlattened fuel ids)
end

/-- More than the number of all entries and items. -/
def extent (nodes : Table Nat Node) : Nat :=
  nodes.foldl (fun n e =>
    match e.2.content with
    | .scalar _ => n
    | .sequence items => n + items.length
    | .mapping entries => n + entries.length) nodes.length

/-- The entries of a mapping that is entered. -/
def mergedEntries (id : Nat) : Form (List (Nat × Nat)) := do
  let n := extent (← get).nodes + 2
  flattened (n * n) id

/-! ## Scalars -/

/-- The text of a node under a tag for scalars. A mapping stands for its default value; one that is
its own default value has no end. -/
def textOf : Nat → Nat → Form String
  | 0, _ => throw .endless
  | fuel + 1, id => do
    match (← nodeOf id).content with
    | .scalar text => return text
    | .sequence _ => refuse
    | .mapping entries =>
      match ← splitAtTag .default entries with
      | some (_, e, _) => textOf fuel e.2
      | none => refuse

/-- Notes that the collection of a node is to be entered. -/
def enterLater (id : Nat) : Form Value := do
  modify fun s => { s with waiting := s.waiting ++ [id] }
  return .ref id

/-- The value of a node that has not been formed yet. -/
def formNew (id : Nat) : Form Value := do
  let node ← nodeOf id
  let text := textOf ((← get).nodes.length + 1) id
  match node.tag with
  | .null =>
    let _ ← text
    return .null
  | .bool => return .bool (← Scalar.readBool (← text))
  | .int => return .int (← Scalar.readInt (← text))
  | .float => Scalar.readFloat id (← text)
  | .binary => return .bytes (← Scalar.readBytes (← text))
  | .timestamp =>
    let text ← text
    match node.content with
    | .mapping _ => throw .stampMapping
    | _ => Scalar.readStamp id text
  | .text => return .string (← text)
  | .orderedMap | .pairs | .set | .sequence | .mapping => enterLater id
  | .merge | .default | .unknown => refuse

/-- The value of a node. -/
def form (id : Nat) : Form Value := do
  match Table.get? (← get).values id with
  | some v => return v
  | none =>
    let v ← formNew id
    modify fun s => { s with values := (id, v) :: s.values }
    return v

/-! ## Collections -/

def formItems : List Nat → Form (List Value)
  | [] => return []
  | id :: ids => do
    let v ← form id
    return v :: (← formItems ids)

/-- Forms entries and puts them into a mapping one after the other. -/
def formEntries : List (Nat × Nat) → List (Value × Value) → Form (List (Value × Value))
  | [], done => return done
  | e :: rest, done => do
    let key ← form e.1
    if !key.isKey then refuse
    let value ← form e.2
    formEntries rest (putEntry done key value)

/-- Forms the items of an ordered mapping, each of which is a mapping of one entry. -/
def formPairs : List Nat → Form (List (Value × Value))
  | [] => return []
  | id :: ids => do
    match ← entriesOf id with
    | [e] =>
      let key ← form e.1
      let value ← form e.2
      return (key, value) :: (← formPairs ids)
    | _ => refuse

/-- Enters a collection. -/
def enter (id : Nat) : Form Cell := do
  let node ← nodeOf id
  match node.tag, node.content with
  | .sequence, .sequence items => return .list (← formItems items)
  | .orderedMap, .sequence items => return .pairs (← formPairs items)
  | .pairs, .sequence items => return .pairs (← formPairs items)
  | .set, .mapping _ =>
    let entries ← formEntries (← mergedEntries id) []
    return .set (SetOrder.sorted (entries.map (·.1)))
  | .mapping, .mapping _ => return .mapping (← formEntries (← mergedEntries id) [])
  | _, _ => refuse

/-- Enters the collections that wait and those found in them, each once. -/
def enterAll : Nat → Form (Table Nat Cell)
  | 0 => return []
  | fuel + 1 => do
    let s ← get
    match s.waiting with
    | [] => return []
    | id :: rest =>
      set { s with waiting := rest }
      let cell ← enter id
      return (id, cell) :: (← enterAll fuel)

end Form
end PubspecTidy.Yaml

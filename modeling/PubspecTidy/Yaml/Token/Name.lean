import PubspecTidy.Number.Reader
import PubspecTidy.Yaml.Cursor
import PubspecTidy.Yaml.Fault
import PubspecTidy.Yaml.Token

/-!
# Anchors, tags and directives
-/
namespace PubspecTidy.Yaml.Name

def isWordChar (c : Char) : Bool := c.isAlphanum || c = '-' || c = '_'

/-- The characters of the remainder of a tag, apart from percent escapes. -/
def isUriChar (c : Char) : Bool :=
  c.isAlphanum || "-;/?:@&=+$,_.!~*'()[]".toList.contains c

/-- The characters that may follow the name of an anchor. -/
def endsName : List Char → Bool
  | [] => true
  | c :: _ => isGap c || "?:,]\x7d%@`".toList.contains c

/-- The name of an anchor or alias after its indicator. -/
def takeAnchor (c : Cursor) : Except Fault (String × Cursor) :=
  let (name, c) := c.next.takeWhile isWordChar
  if name.isEmpty || !endsName c.rest then .error .malformed
  else .ok (String.ofList name, c)

/-- The bytes of the percent escapes here. -/
def takeEscapedBytes : List Char → List UInt8 × List Char
  | '%' :: a :: b :: rest =>
    match Text.hexValue? a, Text.hexValue? b with
    | some x, some y =>
      let (bytes, rest) := takeEscapedBytes rest
      (UInt8.ofNat (x * 16 + y) :: bytes, rest)
    | _, _ => ([], '%' :: a :: b :: rest)
  | cs => ([], cs)

/-- The text that the escapes here stand for; an incomplete escape is an error. -/
def takeEscaped (cs : List Char) : Except Fault (List Char × List Char) :=
  let (bytes, rest) := takeEscapedBytes cs
  if rest.head? == some '%' then .error .malformed
  else
    match String.fromUTF8? ⟨bytes.toArray⟩ with
    | some s => .ok (s.toList, rest)
    | none => .error .malformed

def takeUriChars : Nat → List Char → Except Fault (List Char × List Char)
  | 0, cs => .ok ([], cs)
  | fuel + 1, cs =>
    match cs with
    | [] => .ok ([], [])
    | '%' :: _ => do
      let (part, rest) ← takeEscaped cs
      let (more, rest) ← takeUriChars fuel rest
      return (part ++ more, rest)
    | c :: rest =>
      if isUriChar c then do
        let (more, rest) ← takeUriChars fuel rest
        return (c :: more, rest)
      else .ok ([], cs)

/-- The remainder of a tag; it has at least one character. -/
def takeUri (c : Cursor) : Except Fault (String × Cursor) := do
  let (cs, rest) ← takeUriChars (c.rest.length + 1) c.rest
  let taken := c.rest.length - rest.length
  if taken = 0 then .error .malformed
  else return (String.ofList cs, c.skip taken)

/-- A tag handle: an exclamation mark, or a word between two of them. -/
def takeHandle (c : Cursor) : Except Fault (String × Cursor) :=
  match c.rest with
  | '!' :: rest =>
    if rest.head? == some ' ' then .ok ("!", c.next)
    else
      let name := rest.takeWhile isWordChar
      match rest.dropWhile isWordChar with
      | '!' :: _ => .ok (String.ofList ('!' :: name ++ ['!']), c.skip (name.length + 2))
      | _ => .error .malformed
  | _ => .error .malformed

/-- Whether there is a second exclamation mark before the next space or line end. -/
def hasHandle : List Char → Bool
  | [] => false
  | c :: rest => if c = ' ' || isBreak c then false else c = '!' || hasHandle rest

def takeTagName (c : Cursor) : Except Fault (Token × Cursor) := do
  match c.next.rest with
  | '<' :: _ =>
    let (uri, c) ← takeUri (c.skip 2)
    if c.rest.head? == some '>' then return (.tag none uri, c.next) else .error .malformed
  | rest =>
    if gapAt rest then return (.tag none "!", c.next)
    else if hasHandle rest then
      let (handle, c) ← takeHandle c
      let (suffix, c) ← takeUri c
      return (.tag (some handle) suffix, c)
    else
      let (suffix, c) ← takeUri c.next
      return (.tag (some "!") suffix, c)

/-- A tag from its exclamation mark on. -/
def takeTag (c : Cursor) : Except Fault (Token × Cursor) := do
  let (t, c) ← takeTagName c
  if spaceOrLineEndAt c.rest then return (t, c) else .error .malformed

def takeNumber (c : Cursor) : Except Fault (Nat × Cursor) :=
  let (ds, c) := c.takeWhile Text.isAsciiDigit
  if ds.isEmpty then .error .malformed
  else if Number.maxDigits < ds.length then .error .badValue
  else .ok (ds.foldl (fun n d => n * 10 + (d.toNat - 48)) 0, c)

def takeVersion (c : Cursor) : Except Fault (Token × Cursor) := do
  let (major, c) ← takeNumber c.skipSpaces
  if c.rest.head? == some '.' then
    let (_, c) ← takeNumber c.next
    if spaceOrLineEndAt c.rest then return (.versionDirective major, c) else .error .malformed
  else .error .malformed

def takeTagDirective (c : Cursor) : Except Fault (Token × Cursor) := do
  let (handle, c) ← takeHandle c.skipSpaces
  if c.rest.head? == some ' ' then
    let (start, c) ← takeUri c.skipSpaces
    if spaceOrLineEndAt c.rest then return (.tagDirective handle start, c) else .error .malformed
  else .error .malformed

/-- The end of the line of a directive, which may only hold a comment. -/
def takeLineEnd (c : Cursor) : Except Fault Cursor :=
  let c := c.skipSpaces.skipComment
  match c.takeBreak? with
  | some (_, c) => .ok c
  | none => if c.rest.isEmpty then .ok c else .error .malformed

/-- A directive from its percent sign on, with its line end. -/
def takeDirective (c : Cursor) : Except Fault (Token × Cursor) := do
  let (name, c) := c.next.takeWhile isWordChar
  if name.isEmpty || !spaceOrLineEndAt c.rest then .error .malformed
  else
    let name := String.ofList name
    let (t, c) ←
      if name == "YAML" then takeVersion c
      else if name == "TAG" then takeTagDirective c
      else .ok (Token.otherDirective, c.skipWhile (!isBreak ·))
    let c ← takeLineEnd c
    return (t, c)

end PubspecTidy.Yaml.Name

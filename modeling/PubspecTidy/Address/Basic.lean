import PubspecTidy.Address.Host

/-!
# Addresses

An address is a scheme, the place of a host and a path, of which each may be missing, and perhaps a
query and a fragment. Main statement: a name that is joined to an address without a query is the last
part of the path.
-/
namespace PubspecTidy

structure Address where
  /-- The scheme in lower case; empty if there is none. -/
  scheme : String
  host : String
  /-- The path with its escapes. -/
  path : List Char
  hasQuery : Bool
  deriving DecidableEq, Repr

namespace Address

/-- How many characters an address may have. -/
def longest : Nat := 65536

def isControl (c : Char) : Bool := decide (c.toNat < 0x20) || c = '\x7F'

def isSchemeChar (c : Char) : Bool := c.isAlphanum || c = '+' || c = '.' || c = '-'

/-- The scheme in front of a colon and what follows. An empty scheme is as good as none. -/
def splitScheme (cs : List Char) : List Char × List Char :=
  let word := cs.takeWhile isSchemeChar
  match cs.drop word.length with
  | ':' :: rest => if (word.head?.map Char.isAlpha).getD true then (word, rest) else ([], cs)
  | _ => ([], cs)

/-- The place of the host, which stands behind two slashes, and what follows. -/
def splitPlace : List Char → List Char × List Char
  | '/' :: '/' :: cs =>
    let isInside (c : Char) : Bool := c != '/' && c != '?' && c != '#'
    (cs.takeWhile isInside, cs.dropWhile isInside)
  | cs => ([], cs)

/-- The user of a place, who stands before the last at sign, and what follows. -/
def splitUser (place : List Char) : List Char × List Char :=
  let rest := (place.reverse.takeWhile (· != '@')).reverse
  (place.take (place.length - rest.length - 1), rest)

/-- The host of a place without a user, and the number of its socket. A host in brackets may hold
colons. -/
def splitSocket (place : List Char) : List Char × List Char :=
  let count :=
    if place.head? == some '[' && place.contains ']' then
      (place.reverse.dropWhile (· != ']')).length
    else (place.takeWhile (· != ':')).length
  let rest := place.drop count
  (place.take count, if rest.head? == some ':' then rest.drop 1 else rest)

/-- Whether a text can be the number of a socket: it is missing or an integer. -/
def isSocket (cs : List Char) : Bool := cs.isEmpty || (Number.readInt? 10 cs).isSome

/-- Takes a part of a path into those before it. A dot stays where it is, and two dots go back by one
part, though not before the first one if it is empty. -/
def goOn (parts : List (List Char)) (part : List Char) : List (List Char) :=
  if part == ['.'] then parts
  else if part == ['.', '.'] then if parts == [[]] then parts else parts.dropLast
  else parts ++ [part]

/-- A path without parts of one or two dots. -/
def withoutDots (path : List Char) : List Char :=
  Text.joinOn '/' ((Text.splitOn '/' path).foldl goOn [])

/-- The address that a text stands for. Without a scheme and a place, the path may start neither with
two slashes nor with a colon. -/
def ofText? (text : String) : Option Address :=
  let cs := text.toList
  let (scheme, rest) := splitScheme cs
  let (place, rest) := splitPlace rest
  let (user, place) := splitUser place
  let (host, socket) := splitSocket place
  let path := rest.takeWhile fun c => c != '?' && c != '#'
  let isRelative := scheme.isEmpty && user.isEmpty && host.isEmpty && socket.isEmpty
  if decide (longest < cs.length) || cs.any isControl || !isSocket socket then none
  else if isRelative && (['/', '/'].isPrefixOf path || path.head? == some ':') then none
  else
    (readHost? host).map fun host =>
      { scheme := String.ofList (scheme.map Char.toLower)
        host := String.ofList host
        path := if isRelative then path else withoutDots path
        hasQuery := (rest.drop path.length).head? == some '?' }

/-- The address with a name at the end of its path. Behind a query, a name is part of the query. -/
def join (a : Address) (name : String) : Address :=
  if a.hasQuery then a
  else
    let path := if a.path.getLast? == some '/' then a.path else a.path ++ ['/']
    { a with path := path ++ name.toList }

/-- The address as it is shown: without user, socket and query, and with its escapes read. -/
def text (a : Address) : String :=
  let path := if a.path.isEmpty then "/" else Text.unescaped (String.ofList a.path)
  a.scheme ++ "://" ++ a.host ++ path

theorem path_join {a : Address} (h : a.hasQuery = false) (name : String) :
    ∃ start, (a.join name).path = start ++ '/' :: name.toList := by
  unfold join
  rw [if_neg (by simp [h])]
  by_cases hl : a.path.getLast? = some '/'
  · obtain ⟨start, hs⟩ := List.getLast?_eq_some_iff.1 hl
    exact ⟨start, by simp [hs]⟩
  · exact ⟨a.path, by simp [hl]⟩

end Address
end PubspecTidy

import PubspecTidy.Category.Assignment
import PubspecTidy.FileTree
import PubspecTidy.Json.Printer
import PubspecTidy.Json.Reader

/-!
# The cache of categories

The cache keeps assignments by package and writes all of them to one JSON file whenever one is put
in. An assignment is fresh for a fixed time after it was fetched. A file that cannot be read counts
as empty, and one that cannot be written is left as it is.
-/
namespace PubspecTidy.Category

open Json (Value)
open Time (Stamp)

structure Cache where
  path : FilePath
  /-- How long an assignment is fresh, in microseconds. -/
  life : Int
  entries : Table String Assignment := []
  deriving DecidableEq, Repr

namespace Cache

/-- The most days, of either sign, that a life can have. -/
def maxDays : Nat := 999999999

/-- A cache whose assignments are fresh for some days. -/
def ofDays? (path : FilePath) (days : Int) : Option Cache :=
  if days.natAbs ≤ maxDays then some { path, life := days * Time.day } else none

def names (c : Cache) : List String := Table.keys c.entries

def get? (c : Cache) (name : String) : Option Assignment := Table.get? c.entries name

/-- Whether an assignment is still fresh. -/
def isFresh (c : Cache) (now : Stamp) (a : Assignment) : Bool :=
  decide (now.instant - a.fetched.instant < c.life)

/-- The assignment of a package, while it is fresh. -/
def fresh? (c : Cache) (now : Stamp) (name : String) : Option Assignment :=
  (c.get? name).filter (c.isFresh now)

/-- The same for any stamp; one without an offset cannot be held against an assignment. -/
def freshAt? (c : Cache) (at' : Stamp) (name : String) : Option (Option Assignment) :=
  if at'.offset.isNone && (c.get? name).isSome then none else some (c.fresh? at' name)

/-- The cache as a JSON document. -/
def toJson (c : Cache) : Value := .object (c.entries.map fun e => (e.1, e.2.toJson))

/-- The entries that the fields of a document hold. Those that are no objects or cannot be read are
dropped; the first number that is too large ends the reading with a fault. -/
def readEntries (now : Stamp) :
    List (String × Value) → Table String Assignment × Option AssignmentFault
  | [] => ([], none)
  | (name, v) :: rest =>
    match Assignment.ofJson now v with
    | .ok a =>
      let (entries, fault) := readEntries now rest
      ((name, a) :: entries, fault)
    | .error .tooLarge => ([], some .tooLarge)
    | .error _ => readEntries now rest

/-- The fields in the file of the cache; none if it is missing or holds no object. -/
def storedFields (c : Cache) (t : FileTree) : Table String Value :=
  match t.read c.path with
  | .ok bytes => ((((decodeText? bytes).bind Json.read?).bind Value.fields?).getD [])
  | .error _ => []

/-- Takes over the entries of the file. -/
def load (c : Cache) (t : FileTree) (now : Stamp) : Option AssignmentFault × Cache :=
  let (entries, fault) := readEntries now (c.storedFields t)
  (fault, { c with entries := entries })

/-- Writes the file, after making the directory that it lies in. -/
def write (c : Cache) (t : FileTree) (now : Stamp) : FileTree :=
  match t.makeDirectory c.path.parent with
  | .error _ => t
  | .ok t' =>
    match t'.write c.path (encodeText (Json.print c.toJson)) now.sinceEpoch with
    | .ok t'' => t''
    | .error _ => t'

/-- The cache with an assignment put in. -/
def put (c : Cache) (name : String) (a : Assignment) : Cache :=
  { c with entries := Table.put c.entries name a }

/-- Puts in an assignment and writes the file. -/
def save (c : Cache) (t : FileTree) (now : Stamp) (name : String) (a : Assignment) :
    Cache × FileTree :=
  let c := c.put name a
  (c, c.write t now)

/-- Drops all entries and deletes the file. -/
def clear (c : Cache) (t : FileTree) : Cache × FileTree :=
  ({ c with entries := [] },
    match t.delete c.path with
    | .ok t' => t'
    | .error _ => t)

end Cache
end PubspecTidy.Category

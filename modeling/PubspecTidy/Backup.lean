import PubspecTidy.FileTree
import PubspecTidy.Number.Fixed
import PubspecTidy.Time.Stamp

/-!
# Backups of a manifest

A backup is a copy of the manifest beside it, under its name with an ending, or with the time at
which it was made. No operation raises: each says whether it succeeded.
-/
namespace PubspecTidy.Backup

open Time (Stamp)

def ending : String := ".bak"

/-- The path of the backup of a manifest. -/
def path (manifest : FilePath) : FilePath := manifest.sibling (manifest.name ++ ending)

/-- What the names of the backups with a time start with. -/
def stampedStart (manifest : FilePath) : String := manifest.name ++ ".backup."

/-- The outcome of an operation on a tree. -/
def outcome (t : FileTree) : Except FileError FileTree → Bool × FileTree
  | .ok t' => (true, t')
  | .error _ => (false, t)

def create (t : FileTree) (manifest : FilePath) (now : Int) : Bool × FileTree :=
  if t.isFile manifest then outcome t (t.copy manifest (path manifest) now) else (false, t)

def restore (t : FileTree) (manifest : FilePath) (now : Int) : Bool × FileTree :=
  if t.isFile (path manifest) then outcome t (t.copy (path manifest) manifest now) else (false, t)

def exists? (t : FileTree) (manifest : FilePath) : Bool := t.isFile (path manifest)

/-- Deletes the backup; one that does not exist counts as deleted. -/
def delete (t : FileTree) (manifest : FilePath) : Bool × FileTree :=
  match t.delete (path manifest) with
  | .ok t => (true, t)
  | .error .missing => (true, t)
  | .error _ => (false, t)

structure Info where
  name : String
  size : Nat
  modified : Stamp
  deriving DecidableEq, Repr

def info? (t : FileTree) (manifest : FilePath) : Option Info := do
  let p := path manifest
  let f ← t.file? p
  let modified ← Stamp.ofEpoch? f.modified
  return ⟨p.name, f.bytes.size, modified⟩

/-- A size in bytes, or with one place in units of 1024 or 1024² bytes. -/
def sizeText (size : Int) : String :=
  let inUnits (unit : Nat) : String := Number.oneDecimal (Number.Double.ofRatio false size.toNat unit)
  if size < 1024 then Text.ofInt size ++ "B"
  else if size < 1024 * 1024 then inUnits 1024 ++ "KB"
  else inUnits (1024 * 1024) ++ "MB"

/-- A date as day, month and year. -/
def dateText (d : Time.Date) : String :=
  Text.ofNat d.day ++ "/" ++ Text.ofNat d.month ++ "/" ++ Text.ofNat d.year

/-- How long ago something was, for up to a week, and its date if it is longer. There is no answer
where only one of the stamps has an offset. -/
def ageText? (modified now : Stamp) : Option String :=
  (now.sub? modified).map fun age =>
    let units (unit : Nat) (name : String) : String := Text.ofInt (Int.fdiv age unit) ++ name ++ " ago"
    if age < Time.minute then "Just now"
    else if age < Time.hour then units Time.minute "m"
    else if age < Time.day then units Time.hour "h"
    else if age < 7 * Time.day then units Time.day "d"
    else dateText modified.date

/-- The time in the name of a backup. -/
def stampText (t : Stamp) : String :=
  let two (n : Nat) : String := String.ofList (Text.padDigits 2 n)
  Text.ofNat t.date.year ++ "-" ++ two t.date.month ++ "-" ++ two t.date.day ++ "T" ++ two t.hourOf
    ++ "-" ++ two t.minuteOf ++ "-" ++ two t.secondOf ++ "-"
    ++ String.ofList (Text.padDigits 6 t.microsecondOf)

/-- Makes a backup with the time in its name; gives the name. -/
def createStamped (t : FileTree) (manifest : FilePath) (now : Stamp) : Option String × FileTree :=
  if t.isFile manifest then
    let p := manifest.sibling (stampedStart manifest ++ stampText now)
    match t.copy manifest p now.sinceEpoch with
    | .ok t => (some p.name, t)
    | .error _ => (none, t)
  else (none, t)

/-- All backups, the newest first. -/
def list (t : FileTree) (manifest : FilePath) : List String :=
  let names := (t.filesIn manifest.parent).filter fun name =>
    name == (path manifest).name || Text.startsWith name (stampedStart manifest)
  let found := names.filterMap fun name => (t.file? (manifest.sibling name)).map fun f => (name, f)
  (found.mergeSort fun a b => decide (b.2.modified ≤ a.2.modified)).map (·.1)

end PubspecTidy.Backup

import PubspecTidy.Backup
import PubspecTidy.Manifest.Editor
import PubspecTidy.Plan
import PubspecTidy.Project

/-!
# Making the planned changes

The manifest is copied aside before it is edited, and put back if it cannot be written.
-/
namespace PubspecTidy.Apply

open Manifest (Change Editor)

/-- Something that writes the manifest: it gives an error if it fails, and the tree that it
leaves. -/
abbrev Writer := FileTree → String → Option WriteError × FileTree

/-- What came of an attempt. -/
structure Outcome where
  success : Bool
  /-- The descriptions of the changes made. -/
  changes : List String := []
  error : Option String := none
  backupCreated : Bool := false
  deriving DecidableEq, Repr

/-- Why an attempt broke off. -/
inductive Fault where
  /-- The manifest is no text, so that nothing was attempted. -/
  | notText
  /-- The edited manifest has no encoding. -/
  | unencodable
  deriving DecidableEq, Repr

/-- What came of editing a manifest file. -/
inductive Edited where
  | done (applied : List Change)
  /-- The manifest could not be found or written. -/
  | failed (message : String)
  | broken (f : Fault)
  deriving DecidableEq, Repr

/-- Edits a manifest file; it is written only if a change took effect. -/
def editFile (t : FileTree) (manifest : FilePath) (write : Writer) (changes : List Change) :
    Edited × FileTree :=
  match readManifest t manifest with
  | .error .notText => (.broken .notText, t)
  | .error e => (.failed e.message, t)
  | .ok text =>
    let (applied, e) := (Editor.ofText text).apply changes
    if applied.isEmpty then (.done [], t)
    else
      match write t e.text with
      | (none, t) => (.done applied, t)
      | (some (.refused message), t) => (.failed message, t)
      | (some .unencodable, t) => (.broken .unencodable, t)

/-- Where the manifest and its backup are, and how to write the one. -/
structure Setting where
  manifest : FilePath
  /-- The file that the backup is a copy of. -/
  backedUp : FilePath
  write : Writer
  now : Int

/-- The setting for a manifest that is backed up and written as usual. -/
def Setting.usual (manifest : FilePath) (now : Int) : Setting :=
  ⟨manifest, manifest, writeManifest manifest now, now⟩

/-- The report of a failure, after the backup was put back or not. -/
def failureText (message : String) (restored : Bool) : String :=
  "Failed to apply changes (" ++ message ++ ") - "
    ++ if restored then "backup restored" else "backup could NOT be restored"

/-- Makes planned changes. -/
def run (s : Setting) (t : FileTree) (planned : List PlannedChange) :
    Except Fault Outcome × FileTree :=
  if planned.isEmpty then (.ok { success := true }, t)
  else
    match Backup.create t s.backedUp s.now with
    | (false, t) => (.ok { success := false, error := some "Failed to create backup" }, t)
    | (true, t) =>
      match editFile t s.manifest s.write (planned.map (·.change)) with
      | (.broken f, t) => (.error f, t)
      | (.failed message, t) =>
        let (restored, t) := Backup.restore t s.backedUp s.now
        (.ok { success := false, error := some (failureText message restored),
               backupCreated := true }, t)
      | (.done applied, t) =>
        let changes := (planned.filter fun p => applied.contains p.change).map (·.description)
        (.ok { success := true, changes := changes, backupCreated := true }, t)

/-- The planned changes that are accepted, by one answer for each; where answers are missing, the
change is not. -/
def accepted : List PlannedChange → List Bool → List PlannedChange
  | p :: ps, answer :: answers =>
    if answer then p :: accepted ps answers else accepted ps answers
  | _, _ => []

end PubspecTidy.Apply

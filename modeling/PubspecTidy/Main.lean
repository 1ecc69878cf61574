import PubspecTidy.CommandLine.Run
import Std.Time.DateTime.Timestamp

/-!
# The program

Takes up the files that a command may look at, runs the command on them and writes back what it
changed. Requests to the category service stay without an answer here, so that every category comes
from the cache or from the name of its package.
-/
namespace PubspecTidy.Main

open CommandLine

def environment : IO Environment := do
  let mut env : Environment := []
  for name in Environment.names do
    if let some text ← IO.getEnv name then env := Table.put env name text
  return env

def now : IO Time.Stamp := do
  let t ← Std.Time.Timestamp.now
  return (Time.Stamp.ofEpoch? (Int.fdiv t.toNanosecondsSinceUnixEpoch.val 1000)).getD default

/-- Takes up a file, or a directory with what lies below it down to some depth. What cannot be read
is left out. -/
def takeUp : Nat → FileTree → FilePath → IO FileTree
  | 0, t, _ => return t
  | depth + 1, t, p => do
    let place := System.mkFilePath [t.shown p]
    try
      let info ← place.metadata
      if info.type == .dir then
        let t := { t with directories := if p.isEmpty then [] else t.directories ++ [p] }
        (← place.readDir).foldlM (fun t e => takeUp depth t (p ++ [e.fileName])) t
      else
        let bytes ← IO.FS.readBinFile place
        let modified := info.modified.sec * Time.second + info.modified.nsec.toNat / 1000
        return { t with files := Table.put t.files p ⟨bytes, modified⟩ }
    catch _ => return t

/-- The deepest nesting of directories that is looked at. -/
def maxDepth : Nat := 64

/-- The files of a project: those beside the manifest and all sources. -/
def projectTree (text : String) : IO FileTree := do
  let t ← takeUp 2 (FileTree.empty (FilePath.normalText text)) []
  Usage.sourceRoots.foldlM (fun t root => takeUp maxDepth t (FilePath.ofText root)) t

/-- A tree with just the file that a text names. -/
def treeWith (text : String) : IO FileTree := do
  let p := FilePath.ofText text
  let directory := FilePath.normalText (FilePath.rootText text ++ p.parent.text)
  takeUp 1 (FileTree.empty directory) [p.name]

/-- Writes and deletes the files in which two trees differ. -/
def writeBack (before after : FileTree) : IO Unit := do
  for (p, f) in after.files do
    if before.file? p != some f then
      IO.FS.createDirAll (after.shown p.parent)
      IO.FS.writeBinFile (after.shown p) f.bytes
  for (p, _) in before.files do
    if !after.isFile p then IO.FS.removeFile (before.shown p)

/-- The trees in which a command looks for overrides besides the project. -/
def otherTrees (i : Invocation) : IO (List FileTree) := do
  match i.command.read? i.arguments with
  | some (.group _ (some text) _) => return [← treeWith text]
  | _ => return []

/-- Runs a command line, with one more line from the user whenever it leaves a question open. -/
partial def converse (s : Setting) (st : State) (args : List String) (shown : Nat) :
    IO (Outcome × State) := do
  let (o, after) := CommandLine.run s st args
  IO.print (String.ofList (o.out.toList.drop shown))
  (← IO.getStdout).flush
  if o.ending != .aborted then return (o, after)
  let line ← (← IO.getStdin).getLine
  if line.isEmpty then
    IO.println ""
    return (o, after)
  let line := String.ofList (line.toList.filter fun c => c != '\n' && c != '\r')
  converse { s with input := s.input ++ [line] } st args (o.out.toList.length + line.toList.length + 1)

/-- Where the cache lies. -/
def cacheDirectory (env : Environment) : IO String := do
  match env.cacheDirectory? with
  | some directory => return directory
  | none =>
    let home := (← IO.getEnv "HOME").getD "."
    return FilePath.normalText (home ++ "/" ++ Environment.usualCacheDirectory)

def program (args : List String) : IO UInt32 := do
  let env ← environment
  let project := ((Invocation.read? args).map (·.project)).getD "."
  let tree ← projectTree project
  let others ← match Invocation.read? args with
    | some i => otherTrees i
    | none => pure []
  let cachePath : FilePath := [Environment.cacheFile]
  let cacheTree ← takeUp 1 (FileTree.empty (← cacheDirectory env)) cachePath
  let s : Setting := { environment := env, now := ← now, others }
  let (o, after) ← converse s { tree, cacheTree, cachePath } args 0
  writeBack tree after.tree
  try writeBack cacheTree after.cacheTree catch _ => pure ()
  match o.ending with
  | .misused => IO.eprint (String.join (usage.map shownLine))
  | .failed f => IO.eprintln ("Error: " ++ f.message)
  | _ => IO.eprint o.err
  return o.ending.status.toUInt32

end PubspecTidy.Main

def main (args : List String) : IO UInt32 := PubspecTidy.Main.program args

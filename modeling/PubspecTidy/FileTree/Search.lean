import PubspecTidy.FileTree
import PubspecTidy.Text.Glob

/-!
# Searching a tree

A search goes from directory to directory by the parts of a pattern, which are separated by slashes.
Two stars lead to all directories below; any other part leads to what its marks match, or to the
entry of that name. What is found keeps the path by which it was reached.
-/
namespace PubspecTidy.FileTree

inductive SearchStep where
  /-- To a directory and all directories below it. -/
  | everywhere
  | matching (items : List Text.Glob.Item)
  | named (name : String)
  /-- To the same directory. -/
  | here
  deriving DecidableEq, Repr

/-- The step of a part. Two stars have to stand alone. -/
def searchStep? (part : String) : Option SearchStep :=
  if part == "**" then some .everywhere
  else if Text.contains part "**" then none
  else if part.toList.any Text.Glob.isMark then some (.matching (Text.Glob.ofList part.toList))
  else some (.named part)

/-- The steps of a pattern. After a slash at the end there has to be a directory. -/
def searchSteps? (pattern : String) : Option (List SearchStep) := do
  let steps ← (FilePath.ofText pattern).mapM searchStep?
  return if Text.endsWith pattern "/" then steps ++ [.here] else steps

/-- The names in a directory to which a step may lead: those of directories alone, unless it is the
last one. -/
def namesIn (t : FileTree) (p : FilePath) (isLast : Bool) : List String :=
  t.directoriesIn p ++ if isLast then t.filesIn p else []

/-- What the steps lead to from a directory. -/
def search (t : FileTree) : List SearchStep → FilePath → List FilePath
  | [], p => [p]
  | .here :: _, p => [p]
  | .everywhere :: steps, p => (t.directoriesFrom p).flatMap (search t steps)
  | .named name :: steps, p =>
    let q := p ++ [name]
    if t.isDirectory q || (steps.isEmpty && t.isFile q) then search t steps q else []
  | .matching items :: steps, p =>
    ((t.namesIn p steps.isEmpty).filter fun name => Text.Glob.accepts items name.toList).flatMap
      fun name => search t steps (p ++ [name])

end PubspecTidy.FileTree

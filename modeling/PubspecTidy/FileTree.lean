import PubspecTidy.Table
import PubspecTidy.Text.Affix
import PubspecTidy.Text.Lines
import PubspecTidy.Text.Quoted

/-!
# Trees of files

A tree holds files and directories under paths relative to its root. Every operation is a function
on trees; one that fails leaves the tree as it was.
-/
namespace PubspecTidy

/-- The names on the way from the root; two dots are the way back up. -/
abbrev FilePath := List String

namespace FilePath

/-- The path that a text stands for: empty names and names of one dot are left out. -/
def ofText (text : String) : FilePath :=
  ((Text.splitOn '/' text.toList).map String.ofList).filter fun name => name != "" && name != "."

def name (p : FilePath) : String := p.getLast?.getD ""

def parent (p : FilePath) : FilePath := p.dropLast

/-- The path of a file beside this one. -/
def sibling (p : FilePath) (name : String) : FilePath := p.parent ++ [name]

def text (p : FilePath) : String := Text.join "/" p

/-- What a path from the root of the file system starts with: a slash, or two if it has just two. -/
def rootText (text : String) : String :=
  match (text.toList.takeWhile (· == '/')).length with
  | 0 => ""
  | 2 => "//"
  | _ => "/"

/-- A path written without what does not count in it. -/
def normalText (text : String) : String :=
  let written := rootText text ++ (ofText text).text
  if written.isEmpty then "." else written

end FilePath

structure File where
  bytes : ByteArray
  /-- When the file was written, in microseconds since the start of 1970. -/
  modified : Int

theorem File.eq_iff (f g : File) :
    f = g ↔ f.bytes.data.toList = g.bytes.data.toList ∧ f.modified = g.modified := by
  obtain ⟨⟨⟨bytes⟩⟩, modified⟩ := f
  obtain ⟨⟨⟨bytes'⟩⟩, modified'⟩ := g
  simp

instance : DecidableEq File := fun f g => decidable_of_iff _ (File.eq_iff f g).symm

/-- Why a file cannot be opened. -/
inductive FileError where
  | missing
  | notDirectory
  | isDirectory
  deriving DecidableEq, Repr

namespace FileError

def number : FileError → Nat
  | missing => 2
  | notDirectory => 20
  | isDirectory => 21

def description : FileError → String
  | missing => "No such file or directory"
  | notDirectory => "Not a directory"
  | isDirectory => "Is a directory"

/-- The full text of the error, for the path shown. -/
def message (e : FileError) (shown : String) : String :=
  "[Errno " ++ Text.ofNat e.number ++ "] " ++ e.description ++ ": " ++ Text.quoted shown

end FileError

structure FileTree where
  files : Table FilePath File
  /-- The directories below the root. -/
  directories : List FilePath
  /-- The place of the root, as it is shown. -/
  location : String
  deriving DecidableEq

namespace FileTree

def empty (location : String) : FileTree := ⟨[], [], location⟩

/-- The name that stands for the directory above. -/
def up : String := ".."

def isFileAt (t : FileTree) (place : FilePath) : Bool := Table.has t.files place

def isDirectoryAt (t : FileTree) (place : FilePath) : Bool :=
  place.isEmpty || t.directories.contains place

/-- The directories above a place, the root left out. -/
def ancestors (place : FilePath) : List FilePath :=
  (List.range (place.length - 1)).map fun n => place.take (n + 1)

/-- What is wrong with the way to a place: its first part that is no directory. -/
def wayError? (t : FileTree) (place : FilePath) : Option FileError :=
  match (ancestors place).find? fun q => !t.isDirectoryAt q with
  | some q => some (if t.isFileAt q then .notDirectory else .missing)
  | none => none

/-- Goes on from a place by some names. The way up leads out of existing directories alone, and not
out of the root. -/
def placeFrom (t : FileTree) (place : FilePath) : List String → Except FileError FilePath
  | [] => .ok place
  | name :: names =>
    if name = up then
      if place.isEmpty then .error .missing
      else if t.isDirectoryAt place then placeFrom t place.dropLast names
      else .error ((t.wayError? (place ++ [name])).getD .missing)
    else placeFrom t (place ++ [name]) names

/-- The place that a path leads to. -/
def place (t : FileTree) (p : FilePath) : Except FileError FilePath := t.placeFrom [] p

theorem placeFrom_eq_append (t : FileTree) (place : FilePath) {names : List String}
    (h : up ∉ names) : t.placeFrom place names = .ok (place ++ names) := by
  induction names generalizing place with
  | nil => simp [placeFrom]
  | cons name names ih =>
    have hname : ¬ name = up := fun e => h (e ▸ List.mem_cons_self)
    have hnames : up ∉ names := fun m => h (List.mem_cons_of_mem name m)
    simp [placeFrom, hname, ih _ hnames]

/-- A path that never goes up leads to itself. -/
theorem place_eq_self (t : FileTree) {p : FilePath} (h : up ∉ p) : t.place p = .ok p := by
  simpa [place] using t.placeFrom_eq_append [] h

def isFile (t : FileTree) (p : FilePath) : Bool :=
  match t.place p with
  | .ok place => t.isFileAt place
  | .error _ => false

def isDirectory (t : FileTree) (p : FilePath) : Bool :=
  match t.place p with
  | .ok place => t.isDirectoryAt place
  | .error _ => false

/-- A path as it is shown: below the place of the root, which is left out if it is a dot. -/
def shown (t : FileTree) (p : FilePath) : String :=
  if t.location == "." && !p.isEmpty then p.text else Text.join "/" (t.location :: p)

/-- The path that a text stands for, if it lies in the tree. -/
def path? (t : FileTree) (text : String) : Option FilePath :=
  let root := FilePath.ofText t.location
  let p := FilePath.ofText text
  if FilePath.rootText text = FilePath.rootText t.location && root.isPrefixOf p then
    some (p.drop root.length)
  else none

def file? (t : FileTree) (p : FilePath) : Option File :=
  match t.place p with
  | .ok place => Table.get? t.files place
  | .error _ => none

def read (t : FileTree) (p : FilePath) : Except FileError ByteArray := do
  let place ← t.place p
  match Table.get? t.files place with
  | some f => .ok f.bytes
  | none =>
    if t.isDirectoryAt place then .error .isDirectory
    else .error ((t.wayError? place).getD .missing)

/-- Writes a file, a new one if there is none. -/
def write (t : FileTree) (p : FilePath) (bytes : ByteArray) (now : Int) : Except FileError FileTree := do
  let place ← t.place p
  if t.isDirectoryAt place then .error .isDirectory
  else
    match t.wayError? place with
    | some e => .error e
    | none => .ok { t with files := Table.put t.files place ⟨bytes, now⟩ }

def delete (t : FileTree) (p : FilePath) : Except FileError FileTree := do
  let place ← t.place p
  if t.isFileAt place then .ok { t with files := Table.erase t.files place }
  else if t.isDirectoryAt place then .error .isDirectory
  else .error ((t.wayError? place).getD .missing)

/-- Makes sure that a place is a directory. -/
def makeDirectoryAt (t : FileTree) (place : FilePath) : Except FileError FileTree :=
  if t.isDirectoryAt place then .ok t
  else if t.isFileAt place then .error .notDirectory
  else .ok { t with directories := t.directories ++ [place] }

/-- Makes a directory at every step of the way on from a place, as far as there is none. -/
def makeDirectoriesFrom (t : FileTree) (place : FilePath) : List String → Except FileError FileTree
  | [] => .ok t
  | name :: names => do
    let place ← t.placeFrom place [name]
    let t ← t.makeDirectoryAt place
    makeDirectoriesFrom t place names

/-- Makes a directory and those above it, as far as they do not exist. -/
def makeDirectory (t : FileTree) (p : FilePath) : Except FileError FileTree :=
  t.makeDirectoriesFrom [] p

/-- Writes over a file the bytes of another one. -/
def copy (t : FileTree) (source target : FilePath) (now : Int) : Except FileError FileTree := do
  let bytes ← t.read source
  t.write target bytes now

/-- Sets when a file was written. -/
def touch (t : FileTree) (p : FilePath) (modified : Int) : FileTree :=
  match t.place p with
  | .ok place =>
    match Table.get? t.files place with
    | some f => { t with files := Table.put t.files place ⟨f.bytes, modified⟩ }
    | none => t
  | .error _ => t

/-- What a place holds directly, of the places given. -/
def childrenOf (place : FilePath) (places : List FilePath) : List String :=
  places.filterMap fun q =>
    if place.isPrefixOf q && q.length == place.length + 1 then q.getLast? else none

/-- The names of the files in a directory. -/
def filesIn (t : FileTree) (p : FilePath) : List String :=
  match t.place p with
  | .ok place => childrenOf place (Table.keys t.files)
  | .error _ => []

/-- The names of the directories in a directory. -/
def directoriesIn (t : FileTree) (p : FilePath) : List String :=
  match t.place p with
  | .ok place => childrenOf place t.directories
  | .error _ => []

/-- A directory and all directories below it. -/
def directoriesFrom (t : FileTree) (p : FilePath) : List FilePath :=
  match t.place p with
  | .ok place =>
    p :: t.directories.filterMap fun q =>
      if place.isPrefixOf q && q.length != place.length then some (p ++ q.drop place.length) else none
  | .error _ => []

end FileTree

/-- The text of a file, if its bytes are valid UTF-8. -/
def decodeText? (bytes : ByteArray) : Option String := String.fromUTF8? bytes

def encodeText (text : String) : ByteArray := text.toUTF8

end PubspecTidy

import PubspecTidy.Text.Affix

/-!
# Roles of source files

A source file has the role of the root directory that it lies in.
-/
namespace PubspecTidy.Usage

inductive Role where
  | lib
  | test
  | bin
  | tool
  deriving DecidableEq, Repr

namespace Role

def all : List Role := [lib, test, bin, tool]

def name : Role → String
  | lib => "lib"
  | test => "test"
  | bin => "bin"
  | tool => "tool"

def ofName? (s : String) : Option Role := all.find? (·.name == s)

/-- The role of the file at a path relative to the project; none outside the four roots. -/
def ofPath? (path : String) : Option Role := all.find? fun r => Text.startsWith path (r.name ++ "/")

end Role
end PubspecTidy.Usage

/-!
# Parts of a text

Tests for a text at the start, at the end or inside of another, and the replacement of its first
occurrence.
-/
namespace PubspecTidy.Text

def startsWith (s start : String) : Bool := start.toList.isPrefixOf s.toList

def endsWith (s ending : String) : Bool := ending.toList.isSuffixOf s.toList

def containsList (part : List Char) : List Char → Bool
  | [] => part.isEmpty
  | c :: cs => part.isPrefixOf (c :: cs) || containsList part cs

def contains (s part : String) : Bool := containsList part.toList s.toList

/-- Writes `new` over the first occurrence of `old`, if there is one. -/
def replaceFirstList (old new : List Char) : List Char → List Char
  | [] => if old.isEmpty then new else []
  | c :: cs =>
    if old.isPrefixOf (c :: cs) then new ++ (c :: cs).drop old.length
    else c :: replaceFirstList old new cs

def replaceFirst (s old new : String) : String :=
  String.ofList (replaceFirstList old.toList new.toList s.toList)

/-- Drops every `c` at the end. -/
def dropTrailing (c : Char) (s : String) : String :=
  String.ofList (s.toList.reverse.dropWhile (· == c)).reverse

/-- Fills up with blanks on the right to `width` characters. -/
def padRight (width : Nat) (s : String) : String :=
  s ++ String.ofList (List.replicate (width - s.toList.length) ' ')

/-- The texts in one, with `sep` between them. -/
def join (sep : String) : List String → String
  | [] => ""
  | [s] => s
  | s :: rest => s ++ sep ++ join sep rest

end PubspecTidy.Text

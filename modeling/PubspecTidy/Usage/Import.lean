import PubspecTidy.Text.Affix
import PubspecTidy.Text.Blank

/-!
# Imports in a source text

An import is the word `import`, blanks, a quote and `package:`, followed by the name of the package
up to a slash, a quote or the end of the text. Imports are taken from left to right and do not
overlap.
-/
namespace PubspecTidy.Usage

def isQuote (c : Char) : Bool := c = '\'' || c = '"'

def isNameChar (c : Char) : Bool := c != '/' && !isQuote c

/-- What follows `word` at the start. -/
def afterWord? (word cs : List Char) : Option (List Char) :=
  if word.isPrefixOf cs then some (cs.drop word.length) else none

/-- The name imported at the very start of a text, and what follows it. -/
def importAt? (cs : List Char) : Option (List Char × List Char) :=
  match afterWord? "import".toList cs with
  | none => none
  | some rest =>
    match rest.takeWhile Text.isBlank, rest.dropWhile Text.isBlank with
    | _ :: _, quote :: more =>
      match isQuote quote, afterWord? "package:".toList more with
      | true, some path =>
        match path.takeWhile isNameChar with
        | [] => none
        | name => some (name, path.dropWhile isNameChar)
      | _, _ => none
    | _, _ => none

theorem length_afterWord? {word cs rest : List Char} (h : afterWord? word cs = some rest) :
    rest.length ≤ cs.length := by
  unfold afterWord? at h
  split at h <;> simp at h
  subst h
  simp

/-- An import takes at least one character. -/
theorem length_importAt? {cs name rest : List Char} (h : importAt? cs = some (name, rest)) :
    rest.length < cs.length := by
  unfold importAt? at h
  split at h
  · exact absurd h (by simp)
  · rename_i r hr
    split at h
    · rename_i b bs quote more hb hm
      split at h
      · rename_i path hq hp
        split at h
        · exact absurd h (by simp)
        · simp only [Option.some.injEq, Prod.mk.injEq] at h
          have h1 := length_afterWord? hr
          have h2 := length_afterWord? hp
          have h3 : (quote :: more).length ≤ r.length := by
            rw [← hm]; exact (List.dropWhile_sublist _).length_le
          have h4 : rest.length ≤ path.length := by
            rw [← h.2]; exact (List.dropWhile_sublist _).length_le
          simp at h3
          omega
      · exact absurd h (by simp)
    · exact absurd h (by simp)

/-- The imported names, in the order of the text. -/
def importNames (cs : List Char) : List (List Char) :=
  match cs with
  | [] => []
  | c :: rest =>
    match h : importAt? (c :: rest) with
    | some (name, more) =>
      have := length_importAt? h
      name :: importNames more
    | none => importNames rest
termination_by cs.length
decreasing_by
  · assumption
  · exact Nat.lt_succ_self rest.length

/-- The names of the imported packages, each once. -/
def imports (content : String) : List String :=
  ((importNames content.toList).map String.ofList).eraseDups

end PubspecTidy.Usage

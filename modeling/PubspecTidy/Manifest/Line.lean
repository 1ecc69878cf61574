import PubspecTidy.Text.Affix
import PubspecTidy.Text.Blank

/-!
# Lines of a manifest

What one line of a manifest says by its indentation and its colon alone, without reading the
document around it.
-/
namespace PubspecTidy.Manifest

def indentWidth : List Char → Nat
  | ' ' :: cs => indentWidth cs + 1
  | '\t' :: cs => indentWidth cs + 2
  | _ => 0

/-- The width of the blanks and tabs in front; a tab counts as two blanks. -/
def indentation (line : String) : Nat := indentWidth line.toList

def isBlankLine (line : String) : Bool := (Text.trim line.toList).isEmpty

def isIndented (line : String) : Bool :=
  match line.toList with
  | ' ' :: ' ' :: _ => true
  | '\t' :: _ => true
  | _ => false

/-- Whether the line declares something: indented, no comment, with a colon. -/
def isDependencyLine (line : String) : Bool :=
  let cs := Text.trim line.toList
  cs.head? != some '#' && cs.contains ':' && isIndented line

/-- The text before the first colon, if there is any. -/
def declaredName? (line : String) : Option String :=
  let cs := Text.trim line.toList
  match cs.takeWhile (· != ':') with
  | [] => none
  | name => if cs.contains ':' then some (String.ofList name) else none

/-- Whether the line declares the package called `name`. -/
def declares (line name : String) : Bool :=
  (name.toList ++ [':']).isPrefixOf (Text.trim line.toList) && isDependencyLine line

def startsBlank (line : String) : Bool :=
  match line.toList with
  | ' ' :: _ => true
  | '\t' :: _ => true
  | _ => false

/-- Whether the line is the header of the section called `name`. -/
def isHeaderOf (name line : String) : Bool :=
  Text.trim line.toList == name.toList ++ [':'] && !startsBlank line

/-- Whether the line is a header at all, that is, ends a section that is open before it. -/
def isHeader (line : String) : Bool :=
  match line.toList with
  | [] => false
  | c :: _ =>
    c != ' ' && c != '\t' && c != '#' && (Text.trim line.toList).getLast? == some ':'

end PubspecTidy.Manifest

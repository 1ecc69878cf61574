import PubspecTidy.Text.Letter

/-!
# Lower and upper case

The lower case of a text follows Unicode 14, with the one rule that looks at the letters around: a
capital sigma at the end of a word has a form of its own. The upper case is only held against words
of ASCII letters, so it leaves alone what no such word can hold.
-/
namespace PubspecTidy.Text

/-- The lower-case form of a character on its own. The dotted capital I is the only one that takes
two characters. -/
def lowerOf (c : Char) : List Char :=
  if c.toNat < 0x80 then [c.toLower]
  else if c = '\u0130' then ['i', '\u0307']
  else
    let n := c.toNat
    match lowerRuns.find? fun r => decide (r.1 ≤ n) && decide (n ≤ r.2.1) && (n - r.1) % r.2.2.1 == 0 with
    | some (_, _, _, shift) => [Char.ofNat (n + shift).toNat]
    | none => [c]

/-- Whether the first character that is not passed over is a cased letter. -/
def startsCased (cs : List Char) : Bool := ((cs.dropWhile isCaseless).head?.map isCased).getD false

/-- The lower-case form of a text; `before` are the characters before it, the last one first. A
capital sigma is final if a letter stands before it and none after it. -/
def lowerList (before : List Char) : List Char → List Char
  | [] => []
  | c :: cs =>
    let first :=
      if c = 'Σ' then if startsCased before && !startsCased cs then ['ς'] else ['σ'] else lowerOf c
    first ++ lowerList (c :: before) cs

def lower (s : String) : String := String.ofList (lowerList [] s.toList)

/-- The upper-case form. Beyond ASCII these are the dotless i, the long s, the sharp s and the
ligatures of Latin letters. -/
def upperOf (c : Char) : List Char :=
  match c with
  | '\u0131' => ['I']
  | '\u017F' => ['S']
  | '\u00DF' => ['S', 'S']
  | '\uFB00' => ['F', 'F']
  | '\uFB01' => ['F', 'I']
  | '\uFB02' => ['F', 'L']
  | '\uFB03' => ['F', 'F', 'I']
  | '\uFB04' => ['F', 'F', 'L']
  | '\uFB05' => ['S', 'T']
  | '\uFB06' => ['S', 'T']
  | c => [c.toUpper]

def upper (s : String) : String := String.ofList (s.toList.flatMap upperOf)

end PubspecTidy.Text

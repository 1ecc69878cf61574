/-!
# Lines of a text

A text is cut at line feeds alone, so a carriage return stays at the end of its line. Main
statement: joining the lines gives the text back.
-/
namespace PubspecTidy.Text

/-- The pieces between the occurrences of `sep`; one more than there are occurrences. -/
def splitOn (sep : Char) : List Char → List (List Char)
  | [] => [[]]
  | c :: cs =>
    if c = sep then [] :: splitOn sep cs
    else match splitOn sep cs with
      | [] => [[c]]
      | piece :: pieces => (c :: piece) :: pieces

/-- The pieces in one text, with `sep` between them. -/
def joinOn (sep : Char) : List (List Char) → List Char
  | [] => []
  | [piece] => piece
  | piece :: pieces => piece ++ sep :: joinOn sep pieces

theorem splitOn_ne_nil (sep : Char) (cs : List Char) : splitOn sep cs ≠ [] := by
  cases cs with
  | nil => simp [splitOn]
  | cons c cs => unfold splitOn; split <;> simp; split <;> simp

theorem joinOn_splitOn (sep : Char) (cs : List Char) : joinOn sep (splitOn sep cs) = cs := by
  induction cs with
  | nil => rfl
  | cons c cs ih =>
    unfold splitOn
    split
    · rename_i h
      subst h
      match hs : splitOn c cs with
      | [] => exact absurd hs (splitOn_ne_nil c cs)
      | piece :: pieces => simp [joinOn, hs ▸ ih]
    · match hs : splitOn sep cs with
      | [] => exact absurd hs (splitOn_ne_nil sep cs)
      | [piece] => simpa [joinOn, hs] using ih
      | piece :: next :: pieces => simpa [joinOn, hs] using ih

def splitLines (text : String) : List String := (splitOn '\n' text.toList).map String.ofList

def joinLines (lines : List String) : String :=
  String.ofList (joinOn '\n' (lines.map String.toList))

@[simp] theorem joinLines_splitLines (text : String) : joinLines (splitLines text) = text := by
  simp [joinLines, splitLines, Function.comp_def, joinOn_splitOn]

/-! Texts of which the characters are known. -/

theorem toList_of_eq_ofList {text : String} {cs : List Char} (htext : text = String.ofList cs) :
    text.toList = cs := by
  rw [htext, String.toList_ofList]

theorem append_eq_ofList {text text' : String} {cs cs' : List Char} (h : text = String.ofList cs)
    (h' : text' = String.ofList cs') : text ++ text' = String.ofList (cs ++ cs') := by
  rw [h, h', String.ofList_append]

theorem splitLines_of_eq_ofList {text : String} {cs : List Char} {lines : List String}
    (htext : text = String.ofList cs) (hlines : (splitOn '\n' cs).map String.ofList = lines) :
    splitLines text = lines := by
  rw [splitLines, toList_of_eq_ofList htext, hlines]

theorem joinLines_of_eq_ofList {text : String} {cs : List Char} {lines : List String}
    (htext : text = String.ofList cs) (hlines : (splitOn '\n' cs).map String.ofList = lines) :
    joinLines lines = text := by
  rw [← splitLines_of_eq_ofList htext hlines, joinLines_splitLines]

/-- Every line end as one line feed: a carriage return, with the line feed after it if any. -/
def unifyNewlines : List Char → List Char
  | [] => []
  | '\r' :: '\n' :: cs => '\n' :: unifyNewlines cs
  | '\r' :: cs => '\n' :: unifyNewlines cs
  | c :: cs => c :: unifyNewlines cs

/-- Every pair of a carriage return and a line feed as one line feed. -/
def joinReturns : List Char → List Char
  | [] => []
  | '\r' :: '\n' :: cs => '\n' :: joinReturns cs
  | c :: cs => c :: joinReturns cs

def withJoinedReturns (text : String) : String := String.ofList (joinReturns text.toList)

def withUnifiedNewlines (text : String) : String := String.ofList (unifyNewlines text.toList)

end PubspecTidy.Text

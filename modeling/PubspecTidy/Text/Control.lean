/-!
# Control sequences

A control sequence tells a terminal to change its colours or to move. It starts with an escape and an
opening bracket, goes on with digits, semicolons and question marks, and ends with a letter. Main
statement: a text without an escape holds none, so that nothing is dropped from it.
-/
namespace PubspecTidy.Text

def escape : Char := '\x1b'

/-- The characters between the start of a control sequence and the letter at its end. -/
def isParameter (c : Char) : Bool := c.isDigit || c = ';' || c = '?'

/-- How long the control sequence is with which a text starts; zero if it starts with none. -/
def controlLength (cs : List Char) : Nat :=
  if cs.take 2 = [escape, '['] then
    let parameters := (cs.drop 2).takeWhile isParameter
    match cs.drop (2 + parameters.length) with
    | c :: _ => if c.isAlpha then parameters.length + 3 else 0
    | [] => 0
  else 0

/-- Drops some characters at the start, and then the control sequences. -/
def dropControls : Nat → List Char → List Char
  | _, [] => []
  | skipped + 1, _ :: cs => dropControls skipped cs
  | 0, c :: cs =>
    match controlLength (c :: cs) with
    | length + 1 => dropControls length cs
    | 0 => c :: dropControls 0 cs

/-- A text without its control sequences. Those that only arise by leaving others out remain. -/
def withoutControls (text : String) : String := String.ofList (dropControls 0 text.toList)

theorem controlLength_eq_zero {c : Char} (h : c ≠ escape) (cs : List Char) :
    controlLength (c :: cs) = 0 := by
  simp [controlLength, h]

theorem dropControls_eq_self {cs : List Char} (h : escape ∉ cs) : dropControls 0 cs = cs := by
  induction cs with
  | nil => rfl
  | cons c cs ih =>
    have hc : c ≠ escape := fun e => h (e ▸ List.mem_cons_self)
    simp [dropControls, controlLength_eq_zero hc, ih fun m => h (List.mem_cons_of_mem c m)]

theorem withoutControls_eq_self {text : String} (h : escape ∉ text.toList) :
    withoutControls text = text := by
  simp [withoutControls, dropControls_eq_self h]

end PubspecTidy.Text

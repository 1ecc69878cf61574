import PubspecTidy.Text.Blank
import PubspecTidy.Text.Case
import PubspecTidy.Text.Control
import PubspecTidy.Text.Surrogate

/-!
# Questions to the user

A question is asked until the answer can be understood. An empty answer means no; when no further
answer comes, the question stays open. A question that cannot be encoded is not asked.
-/
namespace PubspecTidy.CommandLine

/-- What an answer means, whatever its case and the blanks around it. -/
def answerOf? (line : String) : Option Bool :=
  let word := Text.trimmed (Text.lower line)
  if word == "y" || word == "yes" then some true
  else if word == "n" || word == "no" || word.isEmpty then some false
  else none

/-- Why a question has no answer. -/
inductive Silence where
  | endOfInput
  /-- The question cannot be encoded. -/
  | unencodable
  deriving DecidableEq, Repr

/-- A question and what was answered. -/
structure Dialogue (α : Type) where
  /-- What is shown, answers included. -/
  shown : String
  /-- What was found out, and the answers not used. -/
  result : Except Silence (α × List String)

/-- Whether a text has an encoding. -/
def isEncodable (text : String) : Bool := !Text.holdsHalf text.toList

def promptText (question : String) : String := Text.withoutControls question ++ " [y/N]: "

/-- Asks one question until it is answered. -/
def ask (question : String) : List String → Dialogue Bool
  | [] => ⟨promptText question, .error .endOfInput⟩
  | line :: lines =>
    let start := promptText question ++ line ++ "\n"
    match answerOf? line with
    | some b => ⟨start, .ok (b, lines)⟩
    | none =>
      let d := ask question lines
      { d with shown := start ++ "Error: invalid input\n" ++ d.shown }

def confirm (question : String) (lines : List String) : Dialogue Bool :=
  if isEncodable question then ask question lines else ⟨"", .error .unencodable⟩

/-- Asks several questions. -/
def confirmAll : List String → List String → Dialogue (List Bool)
  | [], lines => ⟨"", .ok ([], lines)⟩
  | question :: questions, lines =>
    match confirm question lines with
    | ⟨shown, .error e⟩ => ⟨shown, .error e⟩
    | ⟨shown, .ok (b, lines)⟩ =>
      let d := confirmAll questions lines
      ⟨shown ++ d.shown, d.result.map fun r => (b :: r.1, r.2)⟩

end PubspecTidy.CommandLine

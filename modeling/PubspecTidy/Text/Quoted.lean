import PubspecTidy.Text.Digit
import PubspecTidy.Text.Printable
import PubspecTidy.Text.Surrogate

/-!
# Quoted texts

A text or a run of bytes inside the written form of a value stands between quotes. The single quote
is used unless the text holds single quotes and no double quote.
-/
namespace PubspecTidy.Text

/-- The quote to write a text with. -/
def quoteFor (cs : List Char) : Char :=
  if cs.contains '\'' && !cs.contains '"' then '"' else '\''

/-- A character that cannot be shown, by its code point in the shortest of three widths. -/
def escapeCode (n : Nat) : List Char :=
  if n ≤ 0xFF then ['\\', 'x'] ++ hexDigits false 2 n
  else if n ≤ 0xFFFF then ['\\', 'u'] ++ hexDigits false 4 n
  else ['\\', 'U'] ++ hexDigits false 8 n

/-- The escapes that a quoted text and quoted bytes share. -/
def escapeBasic? (quote c : Char) : Option (List Char) :=
  if c = quote ∨ c = '\\' then some ['\\', c]
  else if c = '\t' then some ['\\', 't']
  else if c = '\n' then some ['\\', 'n']
  else if c = '\r' then some ['\\', 'r']
  else none

def escapeIn (quote c : Char) : List Char :=
  match escapeBasic? quote c with
  | some cs => cs
  | none => if isPrintable c then [c] else escapeCode (codeOf c)

def escapeByteIn (quote c : Char) : List Char :=
  match escapeBasic? quote c with
  | some cs => cs
  | none => if ' ' ≤ c ∧ c ≤ '~' then [c] else escapeCode c.toNat

def quotedList (cs : List Char) : List Char :=
  let quote := quoteFor cs
  quote :: cs.flatMap (escapeIn quote) ++ [quote]

/-- A text between quotes, with escapes for what cannot be shown. -/
def quoted (s : String) : String := String.ofList (quotedList s.toList)

/-- Bytes between quotes, each as the ASCII character it stands for or as two hexadecimal digits. -/
def quotedBytes (bytes : List UInt8) : String :=
  let cs := bytes.map fun b => Char.ofNat b.toNat
  let quote := quoteFor cs
  String.ofList ('b' :: quote :: cs.flatMap (escapeByteIn quote) ++ [quote])

end PubspecTidy.Text

import PubspecTidy.Text.Digit
import PubspecTidy.Text.Utf8

/-!
# Percent escapes

A percent sign with two hexadecimal digits after it stands for a byte; any other character stands for
its own UTF-8 bytes. The bytes are then read as UTF-8.
-/
namespace PubspecTidy.Text

/-- The byte that two hexadecimal digits at the start of a text stand for. -/
def byteOfDigits? : List Char → Option UInt8
  | a :: b :: _ => do
    let high ← hexValue? a
    let low ← hexValue? b
    return UInt8.ofNat (high * 16 + low)
  | _ => none

/-- Skips some characters and gives the bytes that the others stand for. -/
def bytesOfEscaped : Nat → List Char → List UInt8
  | _, [] => []
  | skipped + 1, _ :: cs => bytesOfEscaped skipped cs
  | 0, c :: cs =>
    match if c = '%' then byteOfDigits? cs else none with
    | some byte => byte :: bytesOfEscaped 2 cs
    | none => (String.singleton c).toUTF8.toList ++ bytesOfEscaped 0 cs

/-- A text with its escapes read. -/
def unescaped (text : String) : String :=
  String.ofList (readUtf8 0 (bytesOfEscaped 0 text.toList))

/-- Characters with an escape in place of each that may not stand for itself, all of them in lower
case. An escape may stand for itself. -/
def escapedInLower (mayStand : Char → Bool) (cs : List Char) : List Char :=
  cs.flatMap fun c =>
    if mayStand c then [c.toLower]
    else (String.singleton c).toUTF8.toList.flatMap fun byte => '%' :: hexDigits false 2 byte.toNat

end PubspecTidy.Text

import PubspecTidy.Text.Surrogate

/-!
# Encodings of a document

A document that starts with an ASCII character tells its encoding by the zeros among its first bytes:
none in UTF-8, one for each character in UTF-16, and three in UTF-32. Halves of surrogate pairs are
read as they are. Main statement: bytes without a zero are read as UTF-8.
-/
namespace PubspecTidy.Text

inductive Encoding where
  | utf8
  /-- Units of two bytes; whether the high byte comes first. -/
  | utf16 (isHighFirst : Bool)
  /-- Units of four bytes; whether the high byte comes first. -/
  | utf32 (isHighFirst : Bool)
  deriving DecidableEq, Repr

namespace Encoding

/-- The encoding of a document. -/
def ofBytes : List UInt8 → Encoding
  | a :: b :: c :: d :: _ =>
    if a = 0 then if b = 0 then utf32 true else utf16 true
    else if b = 0 then if c = 0 ∧ d = 0 then utf32 false else utf16 false
    else utf8
  | [a, b] => if a = 0 then utf16 true else if b = 0 then utf16 false else utf8
  | _ => utf8

/-- The units of two bytes. -/
def pairs? (isHighFirst : Bool) : List UInt8 → Option (List Nat)
  | [] => some []
  | a :: b :: rest =>
    let unit := if isHighFirst then a.toNat * 0x100 + b.toNat else b.toNat * 0x100 + a.toNat
    (pairs? isHighFirst rest).map (unit :: ·)
  | _ => none

/-- The characters of units of two bytes; a half after which its other one is missing stays. -/
def ofUnits : List Nat → List Char
  | [] => []
  | [unit] => [charOfCode unit]
  | high :: low :: rest =>
    if isHighHalf high && isLowHalf low then charOfPair high low :: ofUnits rest
    else charOfCode high :: ofUnits (low :: rest)

/-- The code points of units of four bytes. -/
def ofQuads? (isHighFirst : Bool) : List UInt8 → Option (List Char)
  | [] => some []
  | a :: b :: c :: d :: rest =>
    let join (p q r s : UInt8) : Nat := ((p.toNat * 0x100 + q.toNat) * 0x100 + r.toNat) * 0x100 + s.toNat
    let code := if isHighFirst then join a b c d else join d c b a
    if code ≤ 0x10FFFF then (ofQuads? isHighFirst rest).map (charOfCode code :: ·) else none
  | _ => none

/-- The characters of UTF-8, without a byte order mark in front. -/
def ofUtf8? (bytes : List UInt8) : Option (List Char) :=
  (String.fromUTF8? ⟨bytes.toArray⟩).map fun text =>
    match text.toList with
    | '\uFEFF' :: cs => cs
    | cs => cs

/-- The characters of a document. -/
def decode? (bytes : List UInt8) : Option (List Char) :=
  match ofBytes bytes with
  | utf8 => ofUtf8? bytes
  | utf16 isHighFirst => (pairs? isHighFirst bytes).map ofUnits
  | utf32 isHighFirst => ofQuads? isHighFirst bytes

theorem ofBytes_eq_utf8 {bytes : List UInt8} (h : 0 ∉ bytes) : ofBytes bytes = utf8 := by
  unfold ofBytes
  split <;> simp_all [eq_comm]

end Encoding
end PubspecTidy.Text

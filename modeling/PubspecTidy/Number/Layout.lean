import PubspecTidy.Number.Shortest
import PubspecTidy.Text.Digit

/-!
# Floating-point numbers as text

A finite number is written with the digits of its shortest decimal, positionally where its leading
digit stands from the fourth place after the point to the sixteenth before it, and otherwise as a
digit, the remaining digits and a power of ten. The formats differ in their words for what is not
finite and in whether a lone leading digit takes a point.
-/
namespace PubspecTidy.Number

/-- The choices of one format. -/
structure Layout where
  nan : String
  infinity : String
  negativeInfinity : String
  /-- The least power of ten that is written positionally. -/
  plainFrom : Int
  /-- The least power of ten above it that is not. -/
  plainBelow : Int
  /-- Whether a lone digit before a power of ten is followed by a point and a zero. -/
  pointAfterLoneDigit : Bool

namespace Layout

/-- Numbers as the text of a value. -/
def valueText : Layout := ⟨"nan", "inf", "-inf", -4, 16, false⟩

/-- Numbers in a JSON document. -/
def json : Layout := ⟨"NaN", "Infinity", "-Infinity", -4, 16, false⟩

/-- Numbers in a YAML document. -/
def yaml : Layout := ⟨".nan", ".inf", "-.inf", -4, 16, true⟩

private def zeros (n : Nat) : List Char := List.replicate n '0'

/-- A power of ten with its sign and at least two digits. -/
def power (p : Int) : List Char :=
  ['e', if p < 0 then '-' else '+'] ++ Text.padDigits 2 p.natAbs

/-- The digits of a decimal, its last nonzero digit last. -/
def significant (d : Decimal) : List Char :=
  match ((Text.digits d.digits).reverse.dropWhile (· == '0')).reverse with
  | [] => ['0']
  | cs => cs

/-- A positive decimal. -/
def decimal (l : Layout) (d : Decimal) : List Char :=
  let ds := significant d
  let point : Int := (Text.digits d.digits).length + d.exponent
  let top := point - 1
  if top < l.plainFrom ∨ l.plainBelow ≤ top then
    match ds with
    | [] => power top
    | [c] => (if l.pointAfterLoneDigit then [c, '.', '0'] else [c]) ++ power top
    | c :: cs => c :: '.' :: cs ++ power top
  else if point ≤ 0 then ['0', '.'] ++ zeros (-point).toNat ++ ds
  else if (ds.length : Int) ≤ point then ds ++ zeros (point.toNat - ds.length) ++ ['.', '0']
  else ds.take point.toNat ++ ['.'] ++ ds.drop point.toNat

def text (l : Layout) : Double → String
  | .nan => l.nan
  | .infinite false => l.infinity
  | .infinite true => l.negativeInfinity
  | .finite s m e =>
    let body := if m = 0 then ['0', '.', '0'] else l.decimal (shortest m e)
    String.ofList (if s then '-' :: body else body)

end Layout
end PubspecTidy.Number

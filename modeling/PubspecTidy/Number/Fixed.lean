import PubspecTidy.Number.Double
import PubspecTidy.Text.Digit

/-!
# Numbers with one decimal place

The exact value of a number is rounded once, a half to the even digit.
-/
namespace PubspecTidy.Number

/-- The tenths nearest to the number `mantissa * 2 ^ exponent`. -/
def tenths (mantissa : Nat) (exponent : Int) : Nat :=
  if 0 ≤ exponent then mantissa * twoPow exponent.toNat * 10
  else roundDiv (mantissa * 10) (twoPow (-exponent).toNat)

/-- The integer nearest to `x * scale`; zero if the number is not finite. -/
def scaled (x : Double) (scale : Nat) : Int :=
  match x with
  | .finite s m e =>
    let n :=
      if 0 ≤ e then m * twoPow e.toNat * scale else roundDiv (m * scale) (twoPow (-e).toNat)
    if s then -(n : Int) else n
  | _ => 0

/-- A number with one place after the point. -/
def oneDecimal : Double → String
  | .nan => "nan"
  | .infinite s => if s then "-inf" else "inf"
  | .finite s m e =>
    let t := tenths m e
    let body := Text.digits (t / 10) ++ ['.'] ++ Text.digits (t % 10)
    String.ofList (if s then '-' :: body else body)

end PubspecTidy.Number

import PubspecTidy.Number.Double

/-!
# The shortest decimal of a floating-point number

The decimal with the fewest digits that reads back as the number; of several, the nearest to it.
The reals that round to the number form an interval around it. For one digit, two digits and so on
the two multiples of the power of ten next to the number are tried; seventeen digits always do.
-/
namespace PubspecTidy.Number

/-- The decimal `digits * 10 ^ exponent`. -/
structure Decimal where
  digits : Nat
  exponent : Int
  deriving DecidableEq, Repr

/-- The reals that round to a number, times `den`: all from `low` to `high`, the ends themselves
only if `closed`. The number is `mid / den`. -/
structure Rounding where
  low : Nat
  mid : Nat
  high : Nat
  den : Nat
  closed : Bool

namespace Rounding

/-- The interval of `mantissa * 2 ^ exponent`. Below a power of two the next number is half as far
away as above it. -/
def of (mantissa : Nat) (exponent : Int) : Rounding :=
  let up := twoPow exponent.toNat
  let below := if mantissa = twoPow 52 ∧ Double.leastExponent < exponent then 1 else 2
  { low := (4 * mantissa - below) * up
    mid := 4 * mantissa * up
    high := (4 * mantissa + 2) * up
    den := 4 * twoPow (-exponent).toNat
    closed := decide (mantissa % 2 = 0) }

/-- Whether `num / den` lies in the interval. -/
def contains (r : Rounding) (num den : Nat) : Bool :=
  if r.closed then decide (r.low * den ≤ num * r.den) && decide (num * r.den ≤ r.high * den)
  else decide (r.low * den < num * r.den) && decide (num * r.den < r.high * den)

/-- The number of digits before the decimal point; of a number below one, minus the number of
zeros after the point. -/
def places (r : Rounding) : Int :=
  if r.den ≤ r.mid then ((Nat.toDigits 10 (r.mid / r.den)).length : Int)
  else
    let l := (Nat.toDigits 10 (r.den / r.mid)).length
    if r.mid * tenPow (l - 1) = r.den then 2 - (l : Int) else 1 - (l : Int)

/-- The nearer of the two multiples of `10 ^ unit` next to the number that lie in the interval. -/
def onGrid? (r : Rounding) (unit : Int) : Option Decimal :=
  let up := tenPow unit.toNat
  let down := tenPow (-unit).toNat
  let num := r.mid * down
  let den := r.den * up
  let q := num / den
  let lower := r.contains (q * up) down
  let upper := r.contains ((q + 1) * up) down
  let nearest := roundDiv num den
  if lower && upper then some ⟨nearest, unit⟩
  else if lower then some ⟨q, unit⟩
  else if upper then some ⟨q + 1, unit⟩
  else none

end Rounding

/-- The first of the grids with `count`, `count + 1`, … digits that has a decimal in the interval. -/
def firstOnGrid (r : Rounding) (places : Int) : Nat → Nat → Decimal
  | 0, count => (r.onGrid? (places - count)).getD ⟨0, 0⟩
  | more + 1, count =>
    match r.onGrid? (places - count) with
    | some d => d
    | none => firstOnGrid r places more (count + 1)

/-- The shortest decimal of a positive number. -/
def shortest (mantissa : Nat) (exponent : Int) : Decimal :=
  let r := Rounding.of mantissa exponent
  firstOnGrid r r.places 16 1

end PubspecTidy.Number

import PubspecTidy.Number.Power

/-!
# Floating-point numbers of double precision

A finite number is a sign, a mantissa of at most 53 bits and a power of two. Every operation forms
its exact result as a fraction of natural numbers and rounds it once, to the nearest number, a half
to the even mantissa.
-/
namespace PubspecTidy.Number

/-- The natural number nearest to `num / den`; a half goes to the even neighbour. -/
def roundDiv (num den : Nat) : Nat :=
  let q := num / den
  let r := num % den
  if 2 * r < den then q else if den < 2 * r then q + 1 else q + q % 2

inductive Double where
  /-- The number `± mantissa * 2 ^ exponent`. -/
  | finite (negative : Bool) (mantissa : Nat) (exponent : Int)
  | infinite (negative : Bool)
  | nan
  deriving DecidableEq, Repr

namespace Double

def leastExponent : Int := -1074

def greatestExponent : Int := 971

def zero : Double := .finite false 0 leastExponent

/-- The fraction `num / den / 2 ^ e`. -/
def scaleDown (num den : Nat) (e : Int) : Nat × Nat :=
  if 0 ≤ e then (num, den * twoPow e.toNat) else (num * twoPow (-e).toNat, den)

/-- The exponent for which the mantissa of `num / den` has 53 bits, or the least one. -/
def exponentOf (num den : Nat) : Int :=
  let e : Int := (num.log2 : Int) - (den.log2 : Int) - 52
  let scaled := scaleDown num den e
  max leastExponent (if scaled.1 < scaled.2 * twoPow 52 then e - 1 else e)

/-- The number nearest to `± num / den`. -/
def ofRatio (negative : Bool) (num den : Nat) : Double :=
  if num = 0 then .finite negative 0 leastExponent
  else
    let e := exponentOf num den
    let scaled := scaleDown num den e
    let m := roundDiv scaled.1 scaled.2
    let (m, e) := if m = twoPow 53 then (twoPow 52, e + 1) else (m, e)
    if greatestExponent < e then .infinite negative else .finite negative m e

def ofInt (n : Int) : Double := ofRatio (decide (n < 0)) n.natAbs 1

/-- The number nearest to an integer, unless it is too large. -/
def ofInt? (n : Int) : Option Double :=
  match ofInt n with
  | .finite s m e => some (.finite s m e)
  | _ => none

/-- The number nearest to `± digits * 10 ^ exponent`. The bounds on the exponent only keep the
fraction small: beyond them the result is infinite or zero. -/
def ofDecimal (negative : Bool) (digits : Nat) (exponent : Int) : Double :=
  let size : Int := (Nat.toDigits 10 digits).length
  if digits = 0 ∨ exponent + size < -330 then .finite negative 0 leastExponent
  else if 320 < exponent + size then .infinite negative
  else if 0 ≤ exponent then ofRatio negative (digits * tenPow exponent.toNat) 1
  else ofRatio negative digits (tenPow (-exponent).toNat)

def isFinite : Double → Bool
  | .finite .. => true
  | _ => false

def isNegative : Double → Bool
  | .finite s _ _ => s
  | .infinite s => s
  | .nan => false

def neg : Double → Double
  | .finite s m e => .finite (!s) m e
  | .infinite s => .infinite (!s)
  | .nan => .nan

/-- A finite number in units of `2 ^ e`, for an `e` not above its exponent. -/
def unitsOf (negative : Bool) (mantissa : Nat) (exponent e : Int) : Int :=
  let n : Int := (mantissa * twoPow (exponent - e).toNat : Nat)
  if negative then -n else n

/-- The number nearest to `n * 2 ^ e`. -/
def ofUnits (n : Int) (e : Int) : Double :=
  if 0 ≤ e then ofRatio (decide (n < 0)) (n.natAbs * twoPow e.toNat) 1
  else ofRatio (decide (n < 0)) n.natAbs (twoPow (-e).toNat)

def add : Double → Double → Double
  | .nan, _ => .nan
  | _, .nan => .nan
  | .infinite s, .infinite s' => if s = s' then .infinite s else .nan
  | .infinite s, _ => .infinite s
  | _, .infinite s => .infinite s
  | .finite s m e, .finite s' m' e' =>
    if m = 0 ∧ m' = 0 then .finite (s && s') 0 leastExponent
    else
      let least := min e e'
      ofUnits (unitsOf s m e least + unitsOf s' m' e' least) least

def mul : Double → Double → Double
  | .nan, _ => .nan
  | _, .nan => .nan
  | .infinite s, .infinite s' => .infinite (s != s')
  | .infinite s, .finite s' m _ => if m = 0 then .nan else .infinite (s != s')
  | .finite s m _, .infinite s' => if m = 0 then .nan else .infinite (s != s')
  | .finite s m e, .finite s' m' e' =>
    let exponent := e + e'
    if 0 ≤ exponent then ofRatio (s != s') (m * m' * twoPow exponent.toNat) 1
    else ofRatio (s != s') (m * m') (twoPow (-exponent).toNat)

/-- Whether the first number is below the second; never of NaN. -/
def lt : Double → Double → Bool
  | .nan, _ => false
  | _, .nan => false
  | .infinite s, .infinite s' => s && !s'
  | .infinite s, .finite .. => s
  | .finite .., .infinite s => !s
  | .finite s m e, .finite s' m' e' =>
    let least := min e e'
    decide (unitsOf s m e least < unitsOf s' m' e' least)

/-- The integer that the number is, if it is one. -/
def toInt? : Double → Option Int
  | .finite s m e =>
    let sign (n : Nat) : Int := if s then -(n : Int) else n
    if 0 ≤ e then some (sign (m * twoPow e.toNat))
    else
      let unit := twoPow (-e).toNat
      if m % unit = 0 then some (sign (m / unit)) else none
  | _ => none

end Double
end PubspecTidy.Number

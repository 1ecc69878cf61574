import PubspecTidy.Number.Double
import PubspecTidy.Text.Blank
import PubspecTidy.Text.Digit

/-!
# Numbers read from text

Blanks around a number are dropped, digits of every script count, and a single underscore may stand
between two digits. An integer in a base that is not a power of two has at most 4300 digits.
-/
namespace PubspecTidy.Number

/-- A blank around a number; the four field separators of ASCII do not count here. -/
def isPadding (c : Char) : Bool :=
  Text.isBlank c && !(decide ('\x1C' ≤ c) && decide (c ≤ '\x1F'))

/-- The characters of a number without padding and with the digits of every script as ASCII. -/
def normalized (cs : List Char) : List Char :=
  ((cs.dropWhile isPadding).reverse.dropWhile isPadding).reverse.map fun c =>
    match Text.digitValue? c with
    | some d => Char.ofNat (48 + d)
    | none => c

/-- Takes a sign off the front. -/
def splitSign : List Char → Bool × List Char
  | '-' :: cs => (true, cs)
  | '+' :: cs => (false, cs)
  | cs => (false, cs)

/-- Drops the underscores, each of which has to stand between two characters of `isDigit`; `after`
says whether one was just read. -/
def dropUnderscores? (isDigit : Char → Bool) (after : Bool) : List Char → Option (List Char)
  | [] => some []
  | '_' :: c :: cs =>
    if after && isDigit c then (dropUnderscores? isDigit true cs).map (c :: ·) else none
  | ['_'] => none
  | c :: cs => (dropUnderscores? isDigit (isDigit c) cs).map (c :: ·)

/-- The value of a digit or letter in a base of at most 36. -/
def baseDigit? (base : Nat) (c : Char) : Option Nat :=
  let value :=
    if '0' ≤ c ∧ c ≤ '9' then c.toNat - 48
    else if 'a' ≤ c ∧ c ≤ 'z' then c.toNat - 87
    else if 'A' ≤ c ∧ c ≤ 'Z' then c.toNat - 55
    else base
  if value < base then some value else none

def natOfDigits (base : Nat) (ds : List Nat) : Nat := ds.foldl (fun n d => n * base + d) 0

def isPowerOfTwoBase (base : Nat) : Bool := base = 2 || base = 8 || base = 16

/-- The most digits that an integer in another base than a power of two may have. -/
def maxDigits : Nat := 4300

/-- The letter that may stand after a zero to announce a base. -/
def baseLetter (base : Nat) : List Char :=
  if base = 2 then ['b', 'B'] else if base = 8 then ['o', 'O']
  else if base = 16 then ['x', 'X'] else []

def dropBaseMark (base : Nat) : List Char → List Char
  | '0' :: c :: cs =>
    if (baseLetter base).contains c then
      match cs with
      | '_' :: rest => rest
      | rest => rest
    else '0' :: c :: cs
  | cs => cs

/-- The natural number that the digits spell. -/
def readNat? (base : Nat) (cs : List Char) : Option Nat := do
  let cs ← dropUnderscores? (fun c => (baseDigit? base c).isSome) false cs
  let ds ← cs.mapM (baseDigit? base)
  if ds.isEmpty || (!isPowerOfTwoBase base && decide (maxDigits < ds.length)) then none
  else some (natOfDigits base ds)

def readInt? (base : Nat) (cs : List Char) : Option Int :=
  let (negative, cs) := splitSign (normalized cs)
  (readNat? base (dropBaseMark base cs)).map fun n => if negative then -(n : Int) else n

/-- An exponent part, if there is one, up to the end of the text. -/
def readExponent? : List Char → Option Int
  | [] => some 0
  | c :: cs =>
    if c = 'e' ∨ c = 'E' then
      let (negative, ds) := splitSign cs
      if ds.isEmpty || !ds.all Text.isAsciiDigit then none
      else
        let n : Int := natOfDigits 10 (ds.filterMap (baseDigit? 10))
        some (if negative then -n else n)
    else none

/-- An unsigned decimal: digits with a point before, among or after them, and an exponent. -/
def readDecimal? (negative : Bool) (cs : List Char) : Option Double :=
  let whole := cs.takeWhile Text.isAsciiDigit
  let rest := cs.dropWhile Text.isAsciiDigit
  let (fraction, rest) :=
    match rest with
    | '.' :: more => (more.takeWhile Text.isAsciiDigit, more.dropWhile Text.isAsciiDigit)
    | _ => ([], rest)
  let ds := whole ++ fraction
  if ds.isEmpty then none
  else (readExponent? rest).map fun e =>
    Double.ofDecimal negative (natOfDigits 10 (ds.filterMap (baseDigit? 10)))
      (e - (fraction.length : Int))

def readDouble? (cs : List Char) : Option Double := do
  let cs ← dropUnderscores? Text.isAsciiDigit false (normalized cs)
  let (negative, cs) := splitSign cs
  let word := String.ofList (cs.map Char.toLower)
  if word == "inf" || word == "infinity" then some (.infinite negative)
  else if word == "nan" then some .nan
  else readDecimal? negative cs

end PubspecTidy.Number

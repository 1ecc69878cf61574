import PubspecTidy.Text.Surrogate

/-!
# Punycode

A label with characters beyond ASCII is written as its ASCII characters, a hyphen if there are any,
and a row of numbers. A number tells how far to go from one insertion to the next, where the places
of the text so far are counted through once for every code point. Numbers have digits with weights
that adapt to the numbers before. Main statement: a digit is read as the value it was written for.
-/
namespace PubspecTidy.Address.Punycode

/-- How many values a digit has. -/
def base : Nat := 36

def firstBias : Nat := 72

/-- The first code point that is written as a number. -/
def firstCode : Nat := 0x80

/-- The digit of a value: a letter, or for the last ten values a decimal digit. -/
def digitOf (value : Nat) : Char := Char.ofNat (if value < 26 then 97 + value else 22 + value)

/-- The value of a digit, whatever its case. -/
def valueOf? (c : Char) : Option Nat :=
  if 'a' ≤ c ∧ c ≤ 'z' then some (c.toNat - 97)
  else if 'A' ≤ c ∧ c ≤ 'Z' then some (c.toNat - 65)
  else if '0' ≤ c ∧ c ≤ '9' then some (c.toNat - 22)
  else none

theorem valueOf?_digitOf {value : Nat} (h : value < base) : valueOf? (digitOf value) = some value := by
  have all : ∀ v ∈ List.range 36, valueOf? (digitOf v) = some v := by decide
  exact all value (List.mem_range.2 h)

/-- The value below which the digit at a place is the last one; `place` counts from one in steps of
`base`. -/
def threshold (bias place : Nat) : Nat :=
  if place ≤ bias then 1 else if bias + 26 ≤ place then 26 else place - bias

theorem threshold_lt (bias place : Nat) : threshold bias place < base := by
  unfold threshold base
  split
  · omega
  · split <;> omega

/-- Divides until a number is small enough; gives how often, in steps of `base`, and the rest. -/
def reduce (n : Nat) : Nat × Nat :=
  if 455 < n then
    let (steps, rest) := reduce (n / 35)
    (steps + base, rest)
  else (0, n)
termination_by n
decreasing_by omega

/-- The bias after a number, when `count` characters have been placed. -/
def adapt (number count : Nat) (isFirst : Bool) : Nat :=
  let halved := if isFirst then number / 700 else number / 2
  let (steps, rest) := reduce (halved + halved / count)
  steps + base * rest / (rest + 38)

/-- The digits of a number, the lowest one first; it shrinks with each, so that it is enough fuel. -/
def digitsOf (bias : Nat) : Nat → Nat → Nat → List Char
  | 0, _, n => [digitOf n]
  | fuel + 1, place, n =>
    let t := threshold bias place
    if n < t then [digitOf n]
    else digitOf (t + (n - t) % (base - t)) :: digitsOf bias fuel (place + base) ((n - t) / (base - t))

/-- A label on its way to its written form. -/
structure Writing where
  written : List Char
  /-- The places passed since the last insertion. -/
  passed : Nat := 0
  bias : Nat := firstBias
  /-- How many characters have been placed. -/
  placed : Nat

/-- Goes past a character of the label while those of one code point are inserted. -/
def Writing.pass (code asciiCount : Nat) (w : Writing) (c : Char) : Writing :=
  let n := Text.codeOf c
  if n < code then { w with passed := w.passed + 1 }
  else if n = code then
    { written := w.written ++ digitsOf w.bias w.passed base w.passed
      passed := 0
      bias := adapt w.passed (w.placed + 1) (w.placed == asciiCount)
      placed := w.placed + 1 }
  else w

/-- Inserts the code points from the lowest one on; `code` is the first that may come. -/
def Writing.insertAll (label : List Char) (asciiCount : Nat) : Nat → List Nat → Writing → Writing
  | _, [], w => w
  | code, next :: codes, w =>
    let w := { w with passed := w.passed + (next - code) * (w.placed + 1) }
    let w := label.foldl (Writing.pass next asciiCount) w
    insertAll label asciiCount (next + 1) codes { w with passed := w.passed + 1 }

def isAscii (c : Char) : Bool := decide (c.toNat < firstCode)

/-- The written form of a label. -/
def encode (label : List Char) : List Char :=
  let ascii := label.filter isAscii
  let codes := ((label.filter (!isAscii ·)).map Text.codeOf).eraseDups.mergeSort Nat.ble
  let start := if ascii.isEmpty then [] else ascii ++ ['-']
  (Writing.insertAll label ascii.length firstCode codes
    { written := start, placed := ascii.length }).written

/-- Reads one number, which is added to `sum`; gives the characters after it. -/
def readNumber? (bias : Nat) : Nat → Nat → Nat → List Char → Option (Nat × List Char)
  | _, _, _, [] => none
  | place, weight, sum, c :: cs => do
    let value ← valueOf? c
    let t := threshold bias place
    if value < t then return (sum + value * weight, cs)
    else readNumber? bias (place + base) (weight * (base - t)) (sum + value * weight) cs

/-- A label on its way from its written form. -/
structure Reading where
  label : List Char
  /-- The code point that was inserted last. -/
  code : Nat := firstCode
  bias : Nat := firstBias
  /-- The place behind the last insertion. -/
  position : Nat := 0

/-- Inserts the characters that the numbers tell. Each number takes at least one character, so their
count is enough fuel. -/
def insertRead? : Nat → Bool → Reading → List Char → Option (List Char)
  | _, _, r, [] => some r.label
  | 0, _, _, _ => none
  | fuel + 1, isFirst, r, cs => do
    let (number, cs) ← readNumber? r.bias base 1 0 cs
    let count := r.label.length + 1
    let code := r.code + (r.position + number) / count
    if 0x10FFFF < code then none
    else
      let place := (r.position + number) % count
      insertRead? fuel false
        { label := r.label.take place ++ Text.charOfCode code :: r.label.drop place
          code, bias := adapt number count isFirst, position := place + 1 } cs

/-- The label of a written form. -/
def decode? (written : List Char) : Option (List Char) :=
  let numbers := (written.reverse.takeWhile (· != '-')).reverse
  let ascii := written.take (written.length - numbers.length - 1)
  if ascii.all isAscii then insertRead? numbers.length true { label := ascii } numbers else none

end PubspecTidy.Address.Punycode

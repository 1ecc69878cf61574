import PubspecTidy.Text.Case
import PubspecTidy.Yaml.Fault
import PubspecTidy.Yaml.Tag
import PubspecTidy.Yaml.Value

/-!
# The values of scalars

What the text of a scalar stands for under each tag.
-/
namespace PubspecTidy.Yaml

open Number (Double)
open Time (Date Stamp)

namespace Scalar

def dropUnderscores (cs : List Char) : List Char := cs.filter (· != '_')

/-- Takes a sign off the front of a number; there has to be a character at all. -/
def takeSign (cs : List Char) : Except Fault (Bool × List Char) :=
  match cs with
  | [] => .error .emptyNumber
  | '-' :: rest => .ok (true, rest)
  | '+' :: rest => .ok (false, rest)
  | _ => .ok (false, cs)

def orBadValue {α : Type} : Option α → Except Fault α
  | some a => .ok a
  | none => .error .badValue

/-- A magnitude: in base 2, 16, 8, 60 or 10, as its first characters and its colons tell. -/
def readMagnitude (cs : List Char) : Except Fault Int :=
  match cs with
  | ['0'] => .ok 0
  | '0' :: 'b' :: rest => orBadValue (Number.readInt? 2 rest)
  | '0' :: 'x' :: rest => orBadValue (Number.readInt? 16 rest)
  | '0' :: _ => orBadValue (Number.readInt? 8 cs)
  | [] => .error .emptyNumber
  | _ =>
    if cs.contains ':' then do
      let parts ← (Text.splitOn ':' cs).mapM fun p => orBadValue (Number.readInt? 10 p)
      return parts.foldl (fun n d => n * 60 + d) 0
    else orBadValue (Number.readInt? 10 cs)

def readInt (text : String) : Except Fault Int := do
  let (negative, cs) ← takeSign (dropUnderscores text.toList)
  let n ← readMagnitude cs
  return if negative then -n else n

/-- The parts of a number in base sixty from the last one on, each added with one rounding. -/
def addSixtieths (sum : Double) (base : Int) : List Double → Except Fault Double
  | [] => .ok sum
  | d :: ds => do
    match Double.ofInt? base with
    | some b => addSixtieths (sum.add (d.mul b)) (base * 60) ds
    | none => .error .overflow

/-- The word for what is no number. -/
def nanWord : String := ".nan"

/-- A number, unless it is the word for none. -/
def readDouble (negative : Bool) (cs : List Char) : Except Fault Double := do
  let x ←
    if String.ofList cs == ".inf" then .ok (Double.infinite false)
    else if cs.contains ':' then do
      let parts ← (Text.splitOn ':' cs).mapM fun p => orBadValue (Number.readDouble? p)
      addSixtieths Double.zero 1 parts.reverse
    else orBadValue (Number.readDouble? cs)
  return if negative then x.neg else x

/-- The number of a node. The word for what is no number stands for the same value everywhere; any
other text of that meaning makes a new one. -/
def readFloat (id : Nat) (text : String) : Except Fault Value := do
  let (negative, cs) ← takeSign (Text.lowerList [] (dropUnderscores text.toList))
  if String.ofList cs == nanWord then return .float .nan
  else
    match ← readDouble negative cs with
    | .nan => return .nan id
    | x => return .float x

def truthWords : List (String × Bool) :=
  [("yes", true), ("no", false), ("true", true), ("false", false), ("on", true), ("off", false)]

def readBool (text : String) : Except Fault Bool :=
  let word := Text.lower text
  match truthWords.lookup word with
  | some b => .ok b
  | none => .error (.notBoolean word)

/-- The value of a character of a base 64 text. -/
def sextet? (c : Char) : Option Nat :=
  if 'A' ≤ c ∧ c ≤ 'Z' then some (c.toNat - 65)
  else if 'a' ≤ c ∧ c ≤ 'z' then some (c.toNat - 71)
  else if '0' ≤ c ∧ c ≤ '9' then some (c.toNat + 4)
  else if c = '+' then some 62
  else if c = '/' then some 63
  else none

/-- The bytes of a base 64 text, with `count` characters of a group of four read, `pads` equals
signs after them, and `left` the bits not written yet. Other characters are ignored; a group has to
be complete, or filled up with equals signs. -/
def readBase64 (count pads left : Nat) : List Char → Option (List UInt8)
  | [] => if count = 0 then some [] else none
  | c :: cs =>
    if c = '=' then
      if 2 ≤ count then
        if 4 ≤ count + pads + 1 then some [] else readBase64 count (pads + 1) left cs
      else readBase64 count pads left cs
    else
      match sextet? c with
      | none => readBase64 count pads left cs
      | some n =>
        match count with
        | 0 => readBase64 1 0 n cs
        | 1 => (readBase64 2 0 (n % 16) cs).map (UInt8.ofNat (left * 4 + n / 16) :: ·)
        | 2 => (readBase64 3 0 (n % 4) cs).map (UInt8.ofNat (left * 16 + n / 4) :: ·)
        | _ => (readBase64 0 0 0 cs).map (UInt8.ofNat (left * 64 + n) :: ·)

def readBytes (text : String) : Except Fault (List UInt8) :=
  if text.toList.all fun c => c.toNat < 0x80 then
    match readBase64 0 0 0 text.toList with
    | some bs => .ok bs
    | none => .error .malformed
  else .error .malformed

def natOf (cs : List Char) : Nat := cs.foldl (fun n c => n * 10 + (c.toNat - 48)) 0

/-- The microseconds of a fraction; digits beyond the sixth are dropped. -/
def microseconds (cs : List Char) : Nat :=
  let ds := cs.take 6
  natOf ds * Number.tenPow (6 - ds.length)

/-- An offset, which has to be less than a day either way. -/
def readOffset? : Option (Char × List Char × List Char) → Option Int
  | none => some 0
  | some (sign, hours, minutes) =>
    let n := natOf hours * Time.hour + natOf minutes * Time.minute
    if Time.day ≤ n then none else some (if sign = '-' then -(n : Int) else n)

def readStamp (id : Nat) (text : String) : Except Fault Value :=
  match Plain.readStamp? (dropFinalBreak text.toList) with
  | none => .error .notTimestamp
  | some t => do
    match t.clock with
    | none => return .date id (← orBadValue (Date.of? (natOf t.year) (natOf t.month) (natOf t.day)))
    | some (h, m, s) =>
      let offset ←
        match t.offset with
        | none => .ok none
        | some o => (orBadValue (readOffset? o)).map some
      let date ← orBadValue (Date.of? (natOf t.year) (natOf t.month) (natOf t.day))
      let stamp ← orBadValue <|
        Stamp.of? date (natOf h) (natOf m) (natOf s) (microseconds t.fraction) offset
      return .stamp id stamp

end Scalar

end PubspecTidy.Yaml

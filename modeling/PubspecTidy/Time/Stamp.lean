import PubspecTidy.Text.Digit
import PubspecTidy.Time.Calendar

/-!
# Points in time

A stamp is a date, a time of the day and perhaps an offset from universal time. All durations are
in microseconds.
-/
namespace PubspecTidy.Time

def second : Nat := 1000000

def minute : Nat := 60 * second

def hour : Nat := 60 * minute

def day : Nat := 24 * hour

structure Stamp where
  date : Date
  /-- The time since midnight. -/
  sinceMidnight : Nat
  offset : Option Int
  deriving DecidableEq, Repr, Inhabited

namespace Stamp

def hourOf (t : Stamp) : Nat := t.sinceMidnight / hour

def minuteOf (t : Stamp) : Nat := t.sinceMidnight / minute % 60

def secondOf (t : Stamp) : Nat := t.sinceMidnight / second % 60

def microsecondOf (t : Stamp) : Nat := t.sinceMidnight % second

/-- The stamp with these fields, if there is one. -/
def of? (date : Date) (h m s micro : Nat) (offset : Option Int) : Option Stamp :=
  if h < 24 ∧ m < 60 ∧ s < 60 ∧ micro < second then
    some ⟨date, h * hour + m * minute + s * second + micro, offset⟩
  else none

/-- The time on the local clock since the day before the first one. -/
def localTime (t : Stamp) : Int := (t.date.dayNumber : Int) * day + t.sinceMidnight

/-- The same in universal time; a stamp without an offset is in universal time already. -/
def instant (t : Stamp) : Int := t.localTime - t.offset.getD 0

/-- The duration from `u` to `t`; there is none if only one of them has an offset. -/
def sub? (t u : Stamp) : Option Int :=
  if t.offset.isSome = u.offset.isSome then some (t.instant - u.instant) else none

/-- A stamp without an offset, taken as universal time. -/
def orUniversal (t : Stamp) : Stamp := if t.offset.isSome then t else { t with offset := some 0 }

/-- The time from the first day of the year 1 to the start of 1970. -/
def epoch : Int := 719163 * day

/-- The stamp in universal time at a duration after the start of 1970. -/
def ofEpoch? (micros : Int) : Option Stamp :=
  let t := micros + epoch
  (Date.ofDayNumber? (Int.fdiv t day)).map fun date => ⟨date, (Int.fmod t day).toNat, some 0⟩

def sinceEpoch (t : Stamp) : Int := t.instant - epoch

/-- An offset as hours and minutes, with seconds and their fraction only where there are some. -/
def offsetText (offset : Int) : List Char :=
  let n := offset.natAbs
  let seconds := if n % minute = 0 then [] else ':' :: Text.padDigits 2 (n / second % 60)
  let fraction := if n % second = 0 then [] else '.' :: Text.padDigits 6 (n % second)
  (if offset < 0 then '-' else '+') :: Text.padDigits 2 (n / hour) ++
    ':' :: Text.padDigits 2 (n / minute % 60) ++ seconds ++ fraction

def dateText (d : Date) : List Char :=
  Text.padDigits 4 d.year ++ '-' :: Text.padDigits 2 d.month ++ '-' :: Text.padDigits 2 d.day

/-- The date and the time with `separator` between them; a fraction only if there is one. -/
def textWith (separator : Char) (t : Stamp) : String :=
  let fraction :=
    if t.microsecondOf = 0 then [] else '.' :: Text.padDigits 6 t.microsecondOf
  let offset :=
    match t.offset with
    | some o => offsetText o
    | none => []
  String.ofList <| dateText t.date ++ separator :: Text.padDigits 2 t.hourOf ++
    ':' :: Text.padDigits 2 t.minuteOf ++ ':' :: Text.padDigits 2 t.secondOf ++ fraction ++ offset

/-- The stamp in the ISO 8601 format. -/
def iso (t : Stamp) : String := t.textWith 'T'

end Stamp
end PubspecTidy.Time

/-!
# The Gregorian calendar

Dates from the year 1 to the year 9999, counted in days from the first one, and in weeks that start
on Monday and belong to the year of their Thursday.
-/
namespace PubspecTidy.Time

structure Date where
  year : Nat
  month : Nat
  day : Nat
  deriving DecidableEq, Repr, Inhabited

def isLeapYear (year : Nat) : Bool := year % 4 = 0 && (year % 100 != 0 || year % 400 = 0)

def monthLengths (year : Nat) : List Nat :=
  [31, if isLeapYear year then 29 else 28, 31, 30, 31, 30, 31, 31, 30, 31, 30, 31]

def daysInMonth (year month : Nat) : Nat := (monthLengths year).getD (month - 1) 0

def greatestYear : Nat := 9999

namespace Date

def isValid (d : Date) : Bool :=
  decide (1 ≤ d.year) && decide (d.year ≤ greatestYear) && decide (1 ≤ d.month)
    && decide (d.month ≤ 12) && decide (1 ≤ d.day) && decide (d.day ≤ daysInMonth d.year d.month)

/-- The date, if there is one. -/
def of? (year month day : Nat) : Option Date :=
  let d : Date := ⟨year, month, day⟩
  if d.isValid then some d else none

def daysBeforeYear (year : Nat) : Nat :=
  let past := year - 1
  past * 365 + past / 4 - past / 100 + past / 400

/-- The number of the day, from 1 for the first day of the year 1. -/
def dayNumber (d : Date) : Nat :=
  daysBeforeYear d.year + ((monthLengths d.year).take (d.month - 1)).foldl (· + ·) 0 + d.day

/-- The month and day of the day with `rest` days before it, from the given month on. -/
def monthOfDay (month : Nat) : List Nat → Nat → Nat × Nat
  | [], rest => (month, rest + 1)
  | length :: lengths, rest =>
    if rest < length then (month, rest + 1) else monthOfDay (month + 1) lengths (rest - length)

/-- The date with `n` days before it, counted in spans of 400, 100, 4 years and one. The last day of
such a span counts as the first of a span too many, and is put back. -/
def ofDaysBefore (n : Nat) : Date :=
  let (spans400, n) := (n / 146097, n % 146097)
  let (spans100, n) := (n / 36524, n % 36524)
  let (spans4, n) := (n / 1461, n % 1461)
  let (years, n) := (n / 365, n % 365)
  let year := spans400 * 400 + spans100 * 100 + spans4 * 4 + years + 1
  if years = 4 ∨ spans100 = 4 then ⟨year - 1, 12, 31⟩
  else
    let (month, day) := monthOfDay 1 (monthLengths year) n
    ⟨year, month, day⟩

def greatestDayNumber : Nat := 3652059

/-- The date of a day number, if the calendar reaches it. -/
def ofDayNumber? (n : Int) : Option Date :=
  if 1 ≤ n ∧ n ≤ greatestDayNumber then some (ofDaysBefore (n.toNat - 1)) else none

/-- The day number of the Monday of the first week. -/
def firstMonday (year : Nat) : Int :=
  let newYear := dayNumber ⟨year, 1, 1⟩
  let weekday := (newYear + 6) % 7
  let monday : Int := newYear - weekday
  if 3 < weekday then monday + 7 else monday

/-- Whether the year has a week 53: it starts on a Thursday, or on a Wednesday if it is a leap
year. -/
def hasLongCount (year : Nat) : Bool :=
  let weekday := (dayNumber ⟨year, 1, 1⟩ + 6) % 7
  weekday = 3 || (weekday = 2 && isLeapYear year)

/-- The date of a day of a week, Monday being the day 1. -/
def ofWeek? (year week day : Nat) : Option Date :=
  if year < 1 ∨ greatestYear < year ∨ week < 1 ∨ 53 < week ∨ day < 1 ∨ 7 < day then none
  else if week = 53 && !hasLongCount year then none
  else ofDayNumber? (firstMonday year + ((week : Int) - 1) * 7 + day - 1)

end Date
end PubspecTidy.Time

import PubspecTidy.Number.Power
import PubspecTidy.Text.Surrogate
import PubspecTidy.Time.Stamp

/-!
# Stamps read from ISO 8601 text

The date is written as year, month and day or as year, week and day, with or without hyphens; the
day of a week may be missing. Any one character separates it from the time. The time is written to
the hour, the minute, the second or a fraction of it, with or without colons, and an offset may
follow. Digits of a fraction beyond the sixth are dropped.

The text is read byte by byte in UTF-8. Where a time may end, a zero byte counts as its end.
-/
namespace PubspecTidy.Time

/-- Whether a byte is an ASCII character. -/
def byteIs (c : Char) (b : UInt8) : Bool := b.toNat == c.toNat

def isDigitByte (b : UInt8) : Bool := decide (48 ≤ b.toNat) && decide (b.toNat ≤ 57)

def startsWithByte (c : Char) (bs : List UInt8) : Bool := (bs.head?.map (byteIs c)).getD false

def byteAtIs (bs : List UInt8) (i : Nat) (c : Char) : Bool := startsWithByte c (bs.drop i)

def digitAt (bs : List UInt8) (i : Nat) : Bool := (bs[i]?.map isDigitByte).getD false

/-- Whether a time ends here. -/
def endsHere (bs : List UInt8) : Bool := (bs.head?.getD 0) == 0

/-- Reads exactly `count` ASCII digits, with `value` the value of the digits before them. -/
def readDigits? : Nat → Nat → List UInt8 → Option (Nat × List UInt8)
  | value, 0, bs => some (value, bs)
  | value, count + 1, b :: bs =>
    if isDigitByte b then readDigits? (value * 10 + (b.toNat - 48)) count bs else none
  | _, _ + 1, [] => none

/-- The number of bytes that the date takes; none if it cannot be told. -/
def dateLength? (bs : List UInt8) : Option Nat :=
  if bs.length < 7 then none
  else if bs.length = 7 then some 7
  else if byteAtIs bs 4 '-' then
    if !byteAtIs bs 5 'W' then some 10
    else if !byteAtIs bs 8 '-' then some 8
    else if bs.length = 9 then none
    else if digitAt bs 10 then some 8
    else some 10
  else if !byteAtIs bs 4 'W' then some 8
  else
    let stop := 7 + ((bs.drop 7).takeWhile isDigitByte).length
    if stop < 9 then some stop else if stop % 2 = 0 then some 7 else some 8

/-- Drops a hyphen if the date is written with hyphens. -/
def skipHyphen? (hyphens : Bool) (bs : List UInt8) : Option (List UInt8) :=
  if !hyphens then some bs
  else if startsWithByte '-' bs then some (bs.drop 1)
  else none

def readDate? (bs : List UInt8) : Option Date := do
  let (year, rest) ← readDigits? 0 4 bs
  let hyphens := startsWithByte '-' rest
  let rest ← skipHyphen? hyphens rest
  if startsWithByte 'W' rest then
    let (week, rest) ← readDigits? 0 2 (rest.drop 1)
    if rest.isEmpty then Date.ofWeek? year week 1
    else
      let rest ← skipHyphen? hyphens rest
      let (day, _) ← readDigits? 0 1 rest
      Date.ofWeek? year week day
  else
    let (month, rest) ← readDigits? 0 2 rest
    let rest ← skipHyphen? hyphens rest
    let (day, _) ← readDigits? 0 2 rest
    Date.of? year month day

/-- A time of the day as read, and whether something was left over. -/
structure Clock where
  hour : Nat
  minute : Nat
  second : Nat
  microsecond : Nat
  leftOver : Bool

/-- The microseconds of a fraction. -/
def readFraction? (hour minute second : Nat) (bs : List UInt8) : Option Clock := do
  let count := min bs.length 6
  let (value, rest) ← readDigits? 0 count bs
  let rest := rest.dropWhile isDigitByte
  some ⟨hour, minute, second, value * Number.tenPow (6 - count), !endsHere rest⟩

/-- What comes after two digits of a time. -/
inductive Step where
  | done (leftOver : Bool)
  | next (rest : List UInt8)
  | fraction (rest : List UInt8)

/-- Looks at the byte after two digits. A time without colons goes on with that very byte. -/
def stepAfter? (colons : Bool) (bs : List UInt8) : Option Step :=
  match bs with
  | [] => some (.done false)
  | [b] => some (.done (b != 0))
  | b :: rest =>
    if colons && byteIs ':' b then some (.next rest)
    else if byteIs '.' b || byteIs ',' b then some (.fraction rest)
    else if colons then none
    else some (.next bs)

/-- A time of the day. Its first separator tells whether it has colons. -/
def readClock? (bs : List UInt8) : Option Clock := do
  let (h, rest) ← readDigits? 0 2 bs
  let colons := startsWithByte ':' rest
  match ← stepAfter? colons rest with
  | .done leftOver => some ⟨h, 0, 0, 0, leftOver⟩
  | .fraction rest => readFraction? h 0 0 rest
  | .next rest =>
    let (m, rest) ← readDigits? 0 2 rest
    match ← stepAfter? colons rest with
    | .done leftOver => some ⟨h, m, 0, 0, leftOver⟩
    | .fraction rest => readFraction? h m 0 rest
    | .next rest =>
      let (s, rest) ← readDigits? 0 2 rest
      match ← stepAfter? colons rest with
      | .done leftOver => some ⟨h, m, s, 0, leftOver⟩
      | .fraction rest => readFraction? h m s rest
      | .next rest => readFraction? h m s rest

def isOffsetStart (b : UInt8) : Bool := byteIs '+' b || byteIs '-' b || byteIs 'Z' b

/-- The offset that a text stands for: less than a day either way, and zero if it has no whole
second. -/
def readOffset? (bs : List UInt8) : Option Int :=
  match bs with
  | [] => none
  | sign :: rest =>
    if byteIs 'Z' sign then if endsHere rest then some 0 else none
    else do
      let c ← readClock? rest
      if c.leftOver then none
      else
        let seconds := c.hour * 3600 + c.minute * 60 + c.second
        if seconds = 0 then some 0
        else
          let total := seconds * second + c.microsecond
          if day ≤ total then none else some (if byteIs '-' sign then -(total : Int) else total)

/-- A date with the time after its separator. What is left over between the time and an offset is
ignored. -/
def readTime? (date : Date) (bs : List UInt8) : Option Stamp := do
  let clock := bs.takeWhile (!isOffsetStart ·)
  let offset := bs.dropWhile (!isOffsetStart ·)
  let c ← readClock? clock
  if offset.isEmpty then
    if c.leftOver then none
    else Stamp.of? date c.hour c.minute c.second c.microsecond none
  else
    let o ← readOffset? offset
    Stamp.of? date c.hour c.minute c.second c.microsecond (some o)

/-- The number of bytes of a character by its first byte. -/
def characterSize (b : UInt8) : Nat :=
  if b < 0x80 then 1 else if b < 0xE0 then 2 else if b < 0xF0 then 3 else 4

/-- The places at which a separator can stand. -/
def separatorPlaces : List Nat := [7, 8, 10]

/-- The bytes of a text. Where the separator may stand, the half of a surrogate pair is taken for
one; there is no encoding of any other half. -/
def isoBytes? (cs : List Char) : Option (List UInt8) :=
  let isHalfAt (i : Nat) : Bool := (cs[i]?.bind Text.half?).isSome
  let cs :=
    match separatorPlaces.find? isHalfAt with
    | some i => cs.set i 'T'
    | none => cs
  if Text.holdsHalf cs then none else some (String.ofList cs).toUTF8.toList

/-- The stamp that a text stands for: a date alone, or with a separator and a time. -/
def ofIso? (text : String) : Option Stamp := do
  let bs ← isoBytes? text.toList
  let length ← dateLength? bs
  let date ← readDate? (bs.take length)
  match bs.drop length with
  | [] => Stamp.of? date 0 0 0 0 none
  | b :: rest => readTime? date (rest.drop (characterSize b - 1))

end PubspecTidy.Time

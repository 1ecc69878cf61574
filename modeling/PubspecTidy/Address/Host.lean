import PubspecTidy.Address.Label
import PubspecTidy.Number.Reader
import PubspecTidy.Text.Case
import PubspecTidy.Text.Percent

/-!
# Hosts

A host is four numbers with dots between them, groups of hexadecimal digits in brackets, or a name.
A name may be international; its labels are shown as they read.
-/
namespace PubspecTidy.Address

/-- Whether a text is a row of digits with so many further rows after it. One character, whatever it
is, stands between a row and the next. -/
def isRows : Nat → List Char → Bool
  | 0, cs => !cs.isEmpty && cs.all Text.isAsciiDigit
  | rows + 1, c :: d :: cs => Text.isAsciiDigit c && (isRows rows cs || isRows (rows + 1) (d :: cs))
  | _, _ => false

/-- A number up to 255, without zeros in front. -/
def isOctet (cs : List Char) : Bool :=
  !cs.isEmpty && cs.all Text.isAsciiDigit && decide (cs.length ≤ 3)
    && (cs == ['0'] || cs.head? != some '0')
    && decide (Number.natOfDigits 10 (cs.filterMap Text.digitValue?) ≤ 255)

def isFourOctets (cs : List Char) : Bool :=
  let parts := Text.splitOn '.' cs
  parts.length == 4 && parts.all isOctet

/-- One to four hexadecimal digits. -/
def isGroup (cs : List Char) : Bool :=
  !cs.isEmpty && decide (cs.length ≤ 4) && cs.all fun c => (Text.hexValue? c).isSome

/-- How many groups stand on one side of the gap, where nothing stands next to the colon at the very
end of the address. -/
def groupsBeside? (parts : List (List Char)) : Option Nat :=
  if parts == [[]] then some 0
  else if parts.all isGroup then some parts.length
  else none

/-- Whether parts are eight groups, or fewer with one gap in between. -/
def isGroups (parts : List (List Char)) : Bool :=
  match parts.drop 1 |>.dropLast.idxOf? [] with
  | none => parts.length == 8 && parts.all isGroup
  | some place =>
    match groupsBeside? (parts.take (place + 1)), groupsBeside? (parts.drop (place + 2)) with
    | some before, some after => decide (before + after ≤ 7)
    | _, _ => false

/-- Parts with two groups in place of four numbers at the end. -/
def withoutOctets? (parts : List (List Char)) : Option (List (List Char)) :=
  match parts.getLast? with
  | none => none
  | some last =>
    if !last.contains '.' then some parts
    else if isFourOctets last then some (parts.dropLast ++ [['0'], ['0']])
    else none

/-- Whether a text is an address of groups, perhaps with a zone behind a percent sign. -/
def isGroupAddress (cs : List Char) : Bool :=
  let zone := cs.dropWhile (· != '%')
  let parts := Text.splitOn ':' (cs.takeWhile (· != '%'))
  (zone.isEmpty || (decide (1 < zone.length) && !(zone.drop 1).contains '%'))
    && decide (3 ≤ parts.length)
    && ((withoutOctets? parts).map isGroups).getD false

/-- The ASCII characters that stand for themselves in a name. -/
def isNameChar (c : Char) : Bool := !" #/:<>?@[]^".toList.contains c

/-- The written form of an ASCII name. It must not look like numbers when it is written. -/
def writeAscii? (name : List Char) : Option (List Char) :=
  some (Text.escapedInLower isNameChar name) |>.filter (!isRows 3 ·)

/-- A name as it is shown. -/
def shownName (written : List Char) : List Char :=
  if writtenMark.isPrefixOf written then (readName? written).getD written else written

/-- The host that a text stands for, as it is shown. -/
def readHost? (cs : List Char) : Option (List Char) :=
  if cs.isEmpty then some []
  else if isRows 3 cs then if isFourOctets cs then some cs else none
  else if cs.head? == some '[' && cs.getLast? == some ']' then
    let inside := (cs.drop 1).dropLast
    if isGroupAddress inside then some inside else none
  else
    (if cs.all Punycode.isAscii then writeAscii? cs else writeName? (Text.lowerList [] cs)).map shownName

end PubspecTidy.Address

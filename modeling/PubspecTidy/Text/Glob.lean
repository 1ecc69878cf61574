/-!
# Patterns for names

A pattern matches a whole name: a star stands for any characters, a question mark for one character,
and brackets for one of the characters in them, or for one that is not if they start with an
exclamation mark. A bracket that is never closed stands for itself. Main statement: a pattern without
these marks matches itself alone.
-/
namespace PubspecTidy.Text.Glob

inductive Item where
  /-- Any characters. -/
  | run
  /-- Any one character. -/
  | any
  | one (c : Char)
  /-- One of some characters, or one that is none of them. -/
  | among (negated : Bool) (members : List Char) (ranges : List (Char × Char))
  deriving DecidableEq, Repr

/-- The characters in brackets after the opening one, and what follows the closing one. A closing
bracket at the start belongs to the characters. -/
def takeBrackets? (cs : List Char) : Option (List Char × List Char) :=
  let (mark, rest) := if cs.head? == some '!' then (['!'], cs.drop 1) else ([], cs)
  let (first, rest) := if rest.head? == some ']' then ([']'], rest.drop 1) else ([], rest)
  match rest.dropWhile (· != ']') with
  | _ :: after => some (mark ++ first ++ rest.takeWhile (· != ']'), after)
  | [] => none

/-- The parts between the hyphens that make ranges. Such a hyphen has at least `offset` characters
before it; a hyphen at the end makes none. -/
def splitRanges : Nat → Nat → List Char → List (List Char)
  | 0, _, cs => [cs]
  | fuel + 1, offset, cs =>
    let part := cs.take offset ++ (cs.drop offset).takeWhile (· != '-')
    match cs.drop part.length with
    | _ :: [] => [part ++ ['-']]
    | _ :: rest => part :: splitRanges fuel 2 rest
    | [] => [cs]

/-- Drops the ranges that hold nothing, with both of their ends. -/
def dropEmptyRanges (parts : List (List Char)) : List (List Char) :=
  parts.foldr (fun part done =>
    match part.getLast?, done with
    | some low, (high :: more) :: later =>
      if high < low then (part.dropLast ++ more) :: later else part :: done
    | _, _ => part :: done) []

/-- The ranges from the end of each part to the start of the next one. -/
def rangesOf : List (List Char) → List (Char × Char)
  | part :: next :: rest =>
    match part.getLast?, next.head? with
    | some low, some high => (low, high) :: rangesOf (next :: rest)
    | _, _ => rangesOf (next :: rest)
  | _ => []

/-- What the characters in brackets stand for. -/
def itemOf (inside : List Char) : Item :=
  let offset := if inside.head? == some '!' then 2 else 1
  match dropEmptyRanges (splitRanges inside.length offset inside) with
  | ['!' :: []] => .any
  | ('!' :: part) :: parts => .among true (part ++ parts.flatten) (rangesOf (part :: parts))
  | parts => .among false parts.flatten (rangesOf parts)

/-- The items of a pattern; brackets take several characters, so its length is enough fuel. -/
def parse : Nat → List Char → List Item
  | 0, _ => []
  | _, [] => []
  | fuel + 1, c :: cs =>
    if c = '*' then .run :: parse fuel cs
    else if c = '?' then .any :: parse fuel cs
    else if c = '[' then
      match takeBrackets? cs with
      | some (inside, rest) => itemOf inside :: parse fuel rest
      | none => .one '[' :: parse fuel cs
    else .one c :: parse fuel cs

def ofList (cs : List Char) : List Item := parse cs.length cs

def isMark (c : Char) : Bool := c = '*' || c = '?' || c = '['

/-- Whether an item that stands for one character matches a character. -/
def Item.accepts (c : Char) : Item → Bool
  | run => false
  | any => true
  | one d => c = d
  | among negated members ranges =>
    (members.contains c || ranges.any fun r => decide (r.1 ≤ c) && decide (c ≤ r.2)) != negated

/-- Whether items match a text. -/
def accepts : List Item → List Char → Bool
  | [], cs => cs.isEmpty
  | .run :: items, [] => accepts items []
  | .run :: items, c :: cs => accepts items (c :: cs) || accepts (.run :: items) cs
  | _ :: _, [] => false
  | item :: items, c :: cs => item.accepts c && accepts items cs
termination_by items cs => items.length + cs.length

theorem parse_eq_map_one {fuel : Nat} {cs : List Char} (hf : cs.length ≤ fuel)
    (h : cs.any isMark = false) : parse fuel cs = cs.map .one := by
  induction fuel generalizing cs with
  | zero =>
    have : cs = [] := List.eq_nil_of_length_eq_zero (by omega)
    simp [this, parse]
  | succ fuel ih =>
    cases cs with
    | nil => simp [parse]
    | cons c cs =>
      simp only [List.any_cons, Bool.or_eq_false_iff, isMark, decide_eq_false_iff_not] at h
      have hc := h.1
      rw [parse, if_neg hc.1.1, if_neg hc.1.2, if_neg hc.2, ih (by simpa using hf) (by simpa [isMark] using h.2)]
      rfl

theorem accepts_map_one (cs ds : List Char) : accepts (cs.map .one) ds = decide (ds = cs) := by
  induction cs generalizing ds with
  | nil => cases ds <;> simp [accepts]
  | cons c cs ih => cases ds <;> simp [accepts, Item.accepts, ih]

/-- A text without marks matches itself alone. -/
theorem accepts_ofList {cs : List Char} (h : cs.any isMark = false) (ds : List Char) :
    accepts (ofList cs) ds = decide (ds = cs) := by
  rw [ofList, parse_eq_map_one (Nat.le_refl _) h, accepts_map_one]

end PubspecTidy.Text.Glob

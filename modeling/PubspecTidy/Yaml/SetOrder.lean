import PubspecTidy.Yaml.Value

/-!
# The order of the members of a set

A set of numbers is written in the order of a table of slots. A number goes to the slot that its
residue names, or on from there to a free one; the table has eight slots for up to four members, and
else the least power of two above twice their number. Members that are no numbers have no slot of
their own, and a set with one of them stands in the order in which its members were written.
-/
namespace PubspecTidy.Yaml.SetOrder

open Number (Double)

/-- The prime that residues are taken by, `2 ^ 61 - 1`. -/
def modulus : Nat := Number.twoPow 61 - 1

/-- The residue of an infinite number. -/
def infiniteResidue : Nat := 314159

/-- A residue with a sign. Minus one is kept apart from all others. -/
def signed (negative : Bool) (n : Nat) : Int :=
  let r : Int := if negative then -(n : Int) else n
  if r = -1 then -2 else r

/-- The residue of `mantissa * 2 ^ exponent`; two to the 61st power counts as one. -/
def residueOf (mantissa : Nat) (exponent : Int) : Nat :=
  mantissa * Number.twoPow (exponent % 61).toNat % modulus

/-- The residue of a number. -/
def residue? (v : Value) : Option Int :=
  match v.number? with
  | some (.inl n) => some (signed (decide (n < 0)) (n.natAbs % modulus))
  | some (.inr (.finite s m e)) => some (signed s (residueOf m e))
  | some (.inr (.infinite s)) => some (signed s infiniteResidue)
  | _ => none

def slotCount (members : Nat) : Nat :=
  if members < 5 then 8 else Number.twoPow (Nat.log2 (2 * members) + 1)

/-- How many slots after the first one are tried before the search goes elsewhere. -/
def runLength : Nat := 9

/-- The first free slot from `i` on. Where a run of slots is taken, the search goes on at a slot that
depends on the remaining bits of the residue; these are used up in the end, and then every slot comes
up, so the number of slots and bits is enough fuel. -/
def freeSlot (count : Nat) (taken : List Nat) : Nat → Nat → Nat → Nat
  | 0, i, _ => i
  | fuel + 1, i, bits =>
    let run := if i + runLength < count then runLength else 0
    match (List.range (run + 1)).find? fun k => !taken.contains (i + k) with
    | some k => i + k
    | none =>
      let bits := bits / 32
      freeSlot count taken fuel ((i * 5 + 1 + bits) % count) bits

/-- Puts members into slots one after the other. -/
def place (count : Nat) : List (Int × Value) → List (Nat × Value) → List (Nat × Value)
  | [], placed => placed
  | (residue, v) :: rest, placed =>
    let bits := (residue % (Number.twoPow 64 : Nat)).toNat
    let slot := freeSlot count (placed.map (·.1)) (count + 64) (bits % count) bits
    place count rest ((slot, v) :: placed)

/-- The members of a set in the order in which they are written. -/
def sorted (members : List Value) : List Value :=
  match members.mapM residue? with
  | none => members
  | some residues =>
    let placed := place (slotCount members.length) (residues.zip members) []
    (placed.mergeSort fun a b => decide (a.1 ≤ b.1)).map (·.2)

end PubspecTidy.Yaml.SetOrder

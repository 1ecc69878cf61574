/-!
# Halves of surrogate pairs

An escape in JSON or YAML may name one half of a surrogate pair, for which there is no character. In
a text such a half is kept as a character of a range that Unicode leaves unassigned. A text that
holds one can be escaped but has no UTF-8 encoding. Main statement: a half can be told back from the
character that is kept for it.
-/
namespace PubspecTidy.Text

/-- Whether a code point is the half that comes first. -/
def isHighHalf (n : Nat) : Bool := decide (0xD800 ≤ n) && decide (n ≤ 0xDBFF)

/-- Whether a code point is the half that comes second. -/
def isLowHalf (n : Nat) : Bool := decide (0xDC00 ≤ n) && decide (n ≤ 0xDFFF)

def isHalf (n : Nat) : Bool := isHighHalf n || isLowHalf n

/-- The distance from a half to the code point kept for it, from U+DD800 to U+DDFFF. -/
def halfShift : Nat := 0xD0000

/-- The character of a code point, or the one kept for a half. -/
def charOfCode (n : Nat) : Char := Char.ofNat (if isHalf n then n + halfShift else n)

/-- The half that a character is kept for. -/
def half? (c : Char) : Option Nat :=
  let n := c.toNat - halfShift
  if isHalf n then some n else none

def holdsHalf (cs : List Char) : Bool := cs.any fun c => (half? c).isSome

/-- The code point that a character stands for. -/
def codeOf (c : Char) : Nat := (half? c).getD c.toNat

/-- The character of a pair. -/
def charOfPair (high low : Nat) : Char :=
  Char.ofNat (0x10000 + (high - 0xD800) * 0x400 + (low - 0xDC00))

theorem half?_charOfCode {n : Nat} (h : isHalf n = true) : half? (charOfCode n) = some n := by
  have hn : 0xD800 ≤ n ∧ n ≤ 0xDFFF := by
    simp only [isHalf, isHighHalf, isLowHalf, Bool.or_eq_true, Bool.and_eq_true,
      decide_eq_true_eq] at h
    omega
  have hv : (n + halfShift).isValidChar := by
    unfold halfShift
    exact Or.inr ⟨by omega, by omega⟩
  have ht : (Char.ofNat (n + halfShift)).toNat = n + halfShift := by
    unfold Char.ofNat
    rw [dif_pos hv]
    unfold Char.ofNatAux Char.toNat halfShift
    simp
    omega
  unfold half? charOfCode
  rw [if_pos h, ht]
  simp [halfShift, h]

end PubspecTidy.Text

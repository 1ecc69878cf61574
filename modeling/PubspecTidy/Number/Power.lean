/-!
# Powers of two and of ten

The scales of mantissas and of decimals.
-/
namespace PubspecTidy.Number

def twoPow (e : Nat) : Nat := Nat.pow 2 e

def tenPow (e : Nat) : Nat := Nat.pow 10 e

end PubspecTidy.Number

/-!
# Digits and positional values
-/

namespace Squirrel

/-- The value of a digit in a base up to 16. -/
def digit? (base : Nat) (c : Char) : Option Nat :=
  let value? :=
    if '0' ≤ c ∧ c ≤ '9' then some (c.toNat - '0'.toNat)
    else if 'a' ≤ c ∧ c ≤ 'f' then some (c.toNat - 'a'.toNat + 10)
    else if 'A' ≤ c ∧ c ≤ 'F' then some (c.toNat - 'A'.toNat + 10)
    else none
  value?.filter (· < base)

def isDigit (base : Nat) (c : Char) : Bool := (digit? base c).isSome

/-- The number that a list of digit values stands for, the first digit weighing most. -/
def positional (base : Nat) (digits : List Nat) : Nat := digits.foldl (fun value d => value * base + d) 0

/-- The digit values of a text that holds nothing but digits. -/
def digits? (base : Nat) (text : List Char) : Option (List Nat) := text.mapM (digit? base)

/-- The number written by a run of digits; characters that are no digits weigh nothing. -/
def numberOf (base : Nat) (text : List Char) : Nat := positional base (text.filterMap (digit? base))

end Squirrel

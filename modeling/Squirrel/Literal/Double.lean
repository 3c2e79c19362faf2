/-!
# Rounding to double precision

The double nearest to a positive quotient; of two equally near ones, the one with an even significand. A finite double
is `q * 2 ^ e` with `q < 2 ^ 53` and `-1074 ≤ e`, and for the smallest `e` that allows it, `(e + 1074) * 2 ^ 52 + q` is
its bit pattern, so rounding `q` up to `2 ^ 53` carries into the exponent by itself.
-/

namespace Squirrel.Double

/-- The bit pattern of positive infinity. -/
def infinityBits : Nat := 0x7ff0000000000000

/-- The bit that makes a double negative. -/
def signBit : Nat := 0x8000000000000000

/-- The quotient rounded to the nearest integer, a half going to the even neighbour. -/
def roundHalfEven (numerator denominator : Nat) : Nat :=
  let quotient := numerator / denominator
  let twice := 2 * (numerator % denominator)
  if twice < denominator ∨ (twice = denominator ∧ quotient % 2 = 0) then quotient else quotient + 1

/-- The quotient multiplied by a power of two, as numerator and denominator. -/
def scale (numerator denominator : Nat) (power : Int) : Nat × Nat :=
  (numerator <<< power.toNat, denominator <<< (-power).toNat)

/-- The largest `k` with `2 ^ k` at most the quotient of two positive numbers. -/
def floorLog2 (numerator denominator : Nat) : Int :=
  let guess : Int := (numerator.log2 : Int) - denominator.log2
  let (n, d) := scale numerator denominator (-guess)
  if d ≤ n then guess else guess - 1

/-- The bit pattern of the double nearest to the quotient of two positive numbers. -/
def nearestBits (numerator denominator : Nat) : Nat :=
  let exponent := max (floorLog2 numerator denominator - 52) (-1074)
  let (n, d) := scale numerator denominator (-exponent)
  min (((exponent + 1074).toNat <<< 52) + roundHalfEven n d) infinityBits

/-- The double nearest to `digits * 10 ^ exponent`. Far outside the range of doubles the power of ten is not computed: a
number with `n` digits lies between `10 ^ (n - 1 + exponent)` and `10 ^ (n + exponent)`. -/
def decimalBits (digits : Nat) (exponent : Int) : Nat :=
  let magnitude : Int := (Nat.toDigits 10 digits).length + exponent
  if digits = 0 ∨ magnitude < -330 then 0
  else if 310 < magnitude then infinityBits
  else nearestBits (digits * Nat.pow 10 exponent.toNat) (Nat.pow 10 (-exponent).toNat)

/-- A magnitude given by its bit pattern, with a sign. -/
def ofBits (negative : Bool) (bits : Nat) : Float :=
  Float.ofBits (UInt64.ofNat (if negative then bits + signBit else bits))

def nan : Float := Float.ofBits 0x7ff8000000000000

end Squirrel.Double

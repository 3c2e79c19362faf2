import Squirrel.Literal.Digits
import Squirrel.Literal.Double
import Squirrel.Literal.Error

/-!
# Float literals

Decimal notation with an optional sign, point and exponent and at least one digit, or a word for infinity or for no
number at all. A literal may leave out the digits between its point and its exponent.
-/

namespace Squirrel.Literal

/-- A number read from decimal notation. -/
inductive Decimal where
  | finite (digits : Nat) (exponent : Int)
  | infinite
  | undefined
  deriving DecidableEq

/-- Takes an optional sign off a text; `true` is for minus. -/
def splitSign : List Char → Bool × List Char
  | '-' :: rest => (true, rest)
  | '+' :: rest => (false, rest)
  | text => (false, text)

/-- The exponent that a text ends with: nothing at all, or a mark, an optional sign and at least one digit. -/
def exponent? : List Char → Option Int
  | [] => some 0
  | mark :: rest =>
    if mark = 'e' ∨ mark = 'E' then
      let (negative, digits) := splitSign rest
      if digits.isEmpty || !digits.all (isDigit 10) then none
      else some (if negative then -numberOf 10 digits else numberOf 10 digits)
    else none

/-- Reads a number that has no sign. -/
def decimal? (text : List Char) : Option Decimal :=
  let lower := text.map Char.toLower
  if lower = ['i', 'n', 'f'] ∨ lower = ['i', 'n', 'f', 'i', 'n', 'i', 't', 'y'] then some .infinite
  else if lower = ['n', 'a', 'n'] then some .undefined
  else
    let whole := text.takeWhile (isDigit 10)
    let rest := text.drop whole.length
    let (fraction, rest) := match rest with
      | '.' :: after => (after.takeWhile (isDigit 10), after.dropWhile (isDigit 10))
      | _ => ([], rest)
    if whole.isEmpty && fraction.isEmpty then none
    else (exponent? rest).map fun exponent =>
      .finite (numberOf 10 (whole ++ fraction)) (exponent - fraction.length)

/-- Puts a zero between a point and the exponent right after it. -/
def fillFraction (text : List Char) : List Char :=
  let isMark (c : Char) : Bool := c == 'e' || c == 'E'
  let before := text.takeWhile (!isMark ·)
  let after := text.dropWhile (!isMark ·)
  if !after.isEmpty && before.getLast? == some '.' then before ++ '0' :: after else text

def decodeFloat (text : String) : Except LiteralError Float :=
  let (negative, magnitude) := splitSign (fillFraction text.toList)
  match decimal? magnitude with
  | some (.finite digits exponent) => .ok (Double.ofBits negative (Double.decimalBits digits exponent))
  | some .infinite => .ok (Double.ofBits negative Double.infinityBits)
  | some .undefined => .ok Double.nan
  | none => .error (.malformed .float)

end Squirrel.Literal

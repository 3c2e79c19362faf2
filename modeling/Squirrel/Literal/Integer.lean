import Squirrel.Literal.Digits
import Squirrel.Literal.Error

/-!
# Integer literals

Decimal literals must fit in 64 bits together with their sign. Hexadecimal, octal and quoted literals of any length are
taken modulo 2 ^ 64. A quoted literal, three single quotes on each side, lists the bytes of its value, the first byte
weighing most.
-/

namespace Squirrel

/-- The notation an integer literal is written in. -/
inductive Radix where
  | decimal | hexadecimal | octal | quoted
  deriving DecidableEq

namespace Radix

def name : Radix → String
  | decimal => "Decimal"
  | hexadecimal => "Hexadecimal"
  | octal => "Octal"
  | quoted => "Quoted"

end Radix

structure IntegerValue where
  value : Int64
  radix : Radix
  deriving DecidableEq

namespace Literal

/-- What stands between three single quotes on each side. -/
def quotedBody? : List Char → Option (List Char)
  | '\'' :: '\'' :: '\'' :: rest =>
    if ['\'', '\'', '\''].isSuffixOf rest then some (rest.take (rest.length - 3)) else none
  | _ => none

/-- The digits of a hexadecimal literal. -/
def hexBody? : List Char → Option (List Char)
  | '0' :: 'x' :: rest => some rest
  | '0' :: 'X' :: rest => some rest
  | _ => none

/-- The digits of an octal literal. -/
def octalBody? : List Char → Option (List Char)
  | '0' :: c :: rest => some (c :: rest)
  | _ => none

/-- A magnitude with its sign, modulo 2 ^ 64. -/
def wrapped (negative : Bool) (magnitude : Nat) : Int64 :=
  Int64.ofInt (if negative then -magnitude else magnitude)

/-- The number written by at least one digit and nothing else. -/
def wholeNumber? (base : Nat) (text : List Char) : Option Nat :=
  if text.isEmpty then none else positional base <$> digits? base text

/-- The bytes of a text in UTF-8. -/
def utf8Bytes (text : List Char) : List Nat := text.flatMap fun c => (String.utf8EncodeChar c).map UInt8.toNat

def decodeInteger (text : String) : Except LiteralError IntegerValue :=
  let (negative, digits) := match text.toList with
    | '-' :: rest => (true, rest)
    | all => (false, all)
  let positionalValue (base : Nat) (radix : Radix) (body : List Char) : Except LiteralError IntegerValue :=
    match wholeNumber? base body with
    | some magnitude => .ok ⟨wrapped negative magnitude, radix⟩
    | none => .error (.malformed .integer)
  match quotedBody? digits with
  | some body =>
    if body.isEmpty then .error (.malformed .integer)
    else .ok ⟨wrapped negative (positional 256 (utf8Bytes body)), .quoted⟩
  | none =>
    match hexBody? digits with
    | some body => positionalValue 16 .hexadecimal body
    | none =>
      match octalBody? digits with
      | some body => positionalValue 8 .octal body
      | none =>
        match wholeNumber? 10 digits with
        | none => .error (.malformed .integer)
        | some magnitude =>
          let signed : Int := if negative then -magnitude else magnitude
          if Int64.minValue.toInt ≤ signed ∧ signed ≤ Int64.maxValue.toInt then .ok ⟨Int64.ofInt signed, .decimal⟩
          else .error (.integerOverflow text)

end Literal

end Squirrel

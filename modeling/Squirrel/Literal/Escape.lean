import Squirrel.Span
import Squirrel.Literal.Digits
import Squirrel.Literal.Error

/-!
# Escape sequences

A backslash and what follows it: a letter for a control character, one to three octal digits, `x` and two hexadecimal
digits, `u` and four of them, or `u` and any number of them in braces. Any other character stands for itself.
-/

namespace Squirrel

/-- What the characters after a backslash say, and how many of them say it. -/
inductive Escape where
  | denotes (c : Char) (taken : Nat)
  | invalid (taken : Nat)
  deriving DecidableEq

namespace Escape

def taken : Escape → Nat
  | denotes _ n => n
  | invalid n => n

/-- The control characters and quotes that have a letter of their own. -/
def simple? : Char → Option Char
  | 'a' => some '\x07'
  | 'b' => some '\x08'
  | 'f' => some '\x0c'
  | 'n' => some '\n'
  | 'r' => some '\r'
  | 't' => some '\t'
  | 'v' => some '\x0b'
  | '\'' => some '\''
  | '"' => some '"'
  | '\\' => some '\\'
  | '?' => some '?'
  | _ => none

/-- The character with the given code point; surrogates and numbers past the last code point are no characters. -/
def ofCodePoint (value taken : Nat) : Escape :=
  if value.isValidChar then denotes (Char.ofNat value) taken else invalid taken

/-- Hexadecimal digits of a fixed count after a letter. -/
def fixedHex (count : Nat) (rest : List Char) : Escape :=
  let digits := (rest.take count).takeWhile (isDigit 16)
  if digits.length < count then invalid (1 + digits.length)
  else ofCodePoint (numberOf 16 digits) (1 + count)

/-- Hexadecimal digits of any count up to a closing brace; letter and opening brace come before them. -/
def bracedHex (rest : List Char) : Escape :=
  let digits := rest.takeWhile (isDigit 16)
  if digits.isEmpty || (rest.drop digits.length).head? != some '\x7d' then invalid (2 + digits.length)
  else ofCodePoint (numberOf 16 digits) (3 + digits.length)

/-- Reads the escape whose backslash has been passed. -/
def read : List Char → Escape
  | [] => invalid 0
  | c :: rest =>
    match simple? c with
    | some denoted => denotes denoted 1
    | none =>
      if isDigit 8 c then
        let digits := ((c :: rest).take 3).takeWhile (isDigit 8)
        ofCodePoint (numberOf 8 digits) digits.length
      else if c = 'x' then fixedHex 2 rest
      else if c = 'u' then
        match rest with
        | '\x7b' :: inner => bracedHex inner
        | _ => fixedHex 4 rest
      else denotes c 1

end Escape

namespace Literal

/-- The error for an escape whose backslash stands at the given offset. -/
def escapeError (offset : Nat) (after : List Char) (taken : Nat) : LiteralError :=
  let text := '\\' :: after.take taken
  .invalidEscape offset (byteLength text) (String.ofList text)

/-- Decodes the escape at the start of a text that begins with a backslash: the character and the bytes it takes. -/
def decodeEscape (text : String) : Except LiteralError (Char × Nat) :=
  let after := text.toList.tail
  match Escape.read after with
  | .denotes c taken => .ok (c, 1 + byteLength (after.take taken))
  | .invalid taken => .error (escapeError 0 after taken)

/-- Replaces every escape in a text that starts at the given offset of its literal. -/
def unescape (offset : Nat) : List Char → Except LiteralError (List Char)
  | [] => .ok []
  | c :: rest =>
    if c = '\\' then
      match Escape.read rest with
      | .denotes denoted taken =>
        (denoted :: ·) <$> unescape (offset + 1 + byteLength (rest.take taken)) (rest.drop taken)
      | .invalid taken => .error (escapeError offset rest taken)
    else (c :: ·) <$> unescape (offset + c.utf8Size) rest
termination_by text => text.length
decreasing_by
  all_goals
    simp only [List.length_drop, List.length_cons]
    omega

end Literal

end Squirrel

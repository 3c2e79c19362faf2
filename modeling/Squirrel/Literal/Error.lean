/-!
# What can be wrong with a literal
-/

namespace Squirrel

/-- The literals that have a written form of their own. -/
inductive LiteralForm where
  | integer | float | string | verbatimString | char
  deriving DecidableEq

namespace LiteralForm

def name : LiteralForm → String
  | integer => "integer"
  | float => "float"
  | string => "string"
  | verbatimString => "verbatim string"
  | char => "char"

end LiteralForm

/-- Why a text is not a literal. Offsets count from the start of that text. -/
inductive LiteralError where
  | invalidEscape (offset length : Nat) (text : String)
  /-- A char literal that does not hold exactly one character. -/
  | notOneChar
  | integerOverflow (text : String)
  | malformed (form : LiteralForm)
  deriving DecidableEq

namespace LiteralError

def message : LiteralError → String
  | invalidEscape _ _ text => "invalid escape sequence `" ++ text ++ "`"
  | notOneChar => "char literal must contain exactly one character"
  | integerOverflow text => "integer literal `" ++ text ++ "` does not fit in 64 bits"
  | malformed form => "malformed " ++ form.name ++ " literal"

/-- Offset and length of the part at fault, in a text of the given length. -/
def extent (textLength : Nat) : LiteralError → Nat × Nat
  | invalidEscape offset length _ => (offset, length)
  | _ => (0, textLength)

end LiteralError

end Squirrel

import Squirrel.Literal.Escape

/-!
# String and char literals

A string and a char stand between quotes and may hold escapes. A verbatim string holds none: line breaks are content and
two quotes in a row stand for one.
-/

namespace Squirrel.Literal

/-- The characters between an opener and a closer of one character each. -/
def between? (opener closer : Char) (text : List Char) : Option (List Char) :=
  match text with
  | first :: rest => if first = opener ∧ rest.getLast? = some closer then some rest.dropLast else none
  | [] => none

def decodeString (text : String) : Except LiteralError String :=
  match between? '"' '"' text.toList with
  | some body => String.ofList <$> unescape 1 body
  | none => .error (.malformed .string)

def decodeChar (text : String) : Except LiteralError Char :=
  match between? '\'' '\'' text.toList with
  | none => .error (.malformed .char)
  | some ('\\' :: after) =>
    match Escape.read after with
    | .denotes c taken => if taken = after.length then .ok c else .error .notOneChar
    | .invalid taken => .error (escapeError 1 after taken)
  | some [c] => .ok c
  | some _ => .error .notOneChar

/-! ### Verbatim strings -/

/-- What stands between the delimiters of a verbatim string, as written. A delimiter that is missing is not removed. -/
def verbatimBody (text : List Char) : List Char :=
  let body := match text with
    | '@' :: '"' :: rest => rest
    | _ => text
  if body.getLast? = some '"' then body.dropLast else body

/-- Writes each pair of quotes as one quote. -/
def collapseQuotes : List Char → List Char
  | '"' :: '"' :: rest => '"' :: collapseQuotes rest
  | c :: rest => c :: collapseQuotes rest
  | [] => []

def verbatimContent (text : String) : String := String.ofList (verbatimBody text.toList)

def decodeVerbatim (text : String) : Except LiteralError String :=
  match text.toList with
  | '@' :: '"' :: rest =>
    if rest.getLast? = some '"' then .ok (String.ofList (collapseQuotes rest.dropLast))
    else .error (.malformed .verbatimString)
  | _ => .error (.malformed .verbatimString)

end Squirrel.Literal

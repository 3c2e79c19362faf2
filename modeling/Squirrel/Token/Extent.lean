import Squirrel.Span

/-!
# Tokens whose end depends on their content

Comments, strings and char literals are recognized by their opener; these functions find where they end. Each takes the
text from the opener on and tells how many characters belong to the token and whether its closer was found.
-/

namespace Squirrel

structure Extent where
  /-- In characters. -/
  length : Nat
  closed : Bool
  deriving DecidableEq

namespace Extent

/-- The same end, seen from some characters earlier. -/
def past (extent : Extent) (count : Nat) : Extent := { extent with length := extent.length + count }

/-- How many bytes of the text the token takes. -/
def bytes (extent : Extent) (text : List Char) : Nat := byteLength (text.take extent.length)

/-! ### Comments -/

/-- Up to the first star and slash in a row. -/
def toCommentCloser : List Char → Extent
  | '*' :: '/' :: _ => ⟨2, true⟩
  | _ :: rest => (toCommentCloser rest).past 1
  | [] => ⟨0, false⟩

def blockComment (text : List Char) : Extent := (toCommentCloser (text.drop 2)).past 2

/-- How many characters come before the line break that ends the line. A backslash takes the character after it along,
or the line break of two characters. -/
def toLineEnd : List Char → Nat
  | '\\' :: '\r' :: '\n' :: rest => toLineEnd rest + 3
  | '\\' :: _ :: rest => toLineEnd rest + 2
  | '\n' :: _ => 0
  | _ :: rest => toLineEnd rest + 1
  | [] => 0

def lineComment (text : List Char) : Nat := toLineEnd (text.drop 2) + 2

/-! ### Strings -/

/-- Up to the first quote that no backslash takes along. -/
def toQuote : List Char → Extent
  | '\\' :: _ :: rest => (toQuote rest).past 2
  | '"' :: _ => ⟨1, true⟩
  | _ :: rest => (toQuote rest).past 1
  | [] => ⟨0, false⟩

def string (text : List Char) : Extent := (toQuote (text.drop 1)).past 1

/-- Up to the first quote that is not one of a pair. -/
def toSingleQuote : List Char → Extent
  | '"' :: '"' :: rest => (toSingleQuote rest).past 2
  | '"' :: _ => ⟨1, true⟩
  | _ :: rest => (toSingleQuote rest).past 1
  | [] => ⟨0, false⟩

def verbatimString (text : List Char) : Extent := (toSingleQuote (text.drop 2)).past 2

/-! ### Single quotes -/

/-- Up to the first single quote on the line. -/
def toApostrophe : List Char → Extent
  | '\'' :: _ => ⟨1, true⟩
  | '\n' :: _ => ⟨0, false⟩
  | _ :: rest => (toApostrophe rest).past 1
  | [] => ⟨0, false⟩

/-- A backslash right after the opener takes the next character along, whatever it is. -/
def charLiteral (text : List Char) : Extent :=
  match text.drop 1 with
  | '\\' :: _ :: rest => (toApostrophe rest).past 3
  | body => (toApostrophe body).past 1

/-- How many characters come before three single quotes in a row. -/
def toTripleQuote? : List Char → Option Nat
  | '\'' :: '\'' :: '\'' :: _ => some 0
  | _ :: rest => (toTripleQuote? rest).map (· + 1)
  | [] => none

/-- The length of an integer between three single quotes on each side, if a whole one stands here on one line and is not
empty. -/
def quotedInteger? : List Char → Option Nat
  | '\'' :: '\'' :: '\'' :: body =>
    match toTripleQuote? body with
    | some count => if count = 0 ∨ '\n' ∈ body.take count then none else some (count + 6)
    | none => none
  | _ => none

end Extent

end Squirrel

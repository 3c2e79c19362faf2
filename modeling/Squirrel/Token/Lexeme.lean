import Squirrel.Kind
import Squirrel.Diagnostic
import Squirrel.Literal.Integer
import Squirrel.Literal.Real
import Squirrel.Literal.Text
import Squirrel.Token.Extent
import Squirrel.Token.Pattern

/-!
# Lexemes

The source cut into pieces, before any of them has a position. At each point the longest pattern wins; the opener of a
comment, string or char literal is then extended to the end of that token. A run of characters at which no pattern
matches is one lexeme. `Lexeme.fault?` says what is wrong with a piece, and a piece with a fault is garbage.
-/

namespace Squirrel

/-- How a piece of the source was recognized. -/
inductive LexemeForm where
  | token (kind : Kind)
  /-- The input ended before the closer of what the opener opens. -/
  | unterminated (opener : Kind)
  /-- Characters at which no pattern matches. -/
  | unrecognized
  deriving DecidableEq

structure Lexeme where
  form : LexemeForm
  text : List Char

namespace Lexeme

/-! ### Patterns -/

def inRange (low high : Char) (c : Char) : Bool := low ≤ c && c ≤ high

def isDecimal : Char → Bool := inRange '0' '9'

def isNameStart (c : Char) : Bool := inRange 'A' 'Z' c || inRange 'a' 'z' c || c == '_'

def isBlank (c : Char) : Bool := c ∈ [' ', '\t', '\r', '\x0b', '\x0c']

open Pattern in
/-- What each kind of token looks like, or how it opens. Keywords stand before names, which they look like. -/
def patterns : List (Kind × Pattern) :=
  let digits := Pattern.some (one isDecimal)
  let exponentMark := one (fun c => c == 'e' || c == 'E')
  let sign := one (fun c => c == '+' || c == '-')
  (Kind.all.filterMap fun kind => kind.spelling?.map fun text => (kind, ofString text)) ++ [
    (.id, seq (one isNameStart) (many (one fun c => isNameStart c || isDecimal c))),
    (.integerLit, one (· == '0')),
    (.integerLit, seq (one (inRange '1' '9')) (many (one isDecimal))),
    (.integerLit, seq (one (· == '0')) (seq (one fun c => c == 'x' || c == 'X') (Pattern.some (one (isDigit 16))))),
    (.integerLit, seq (one (· == '0')) (Pattern.some (one (isDigit 8)))),
    (.floatLit, seq digits (seq (one (· == '.')) digits)),
    (.floatLit, seq digits (seq (one (· == '.')) (seq exponentMark (seq (optional sign) digits)))),
    (.whitespace, Pattern.some (one isBlank)),
    (.newline, ofString "\n"),
    (.newline, ofString "\r\n"),
    (.lineComment, seq (one (· == '#')) (many (one (· != '\n')))),
    (.blockCommentStart, ofString "/*"),
    (.lineCommentStart, ofString "//"),
    (.stringStart, ofString "\""),
    (.verbatimStart, ofString "@\""),
    (.charStart, ofString "'")]

/-- The kind of the longest pattern at the start of the text, and how many characters it takes. -/
def match? (text : List Char) : Option (Kind × Nat) := Pattern.longest? patterns text

/-! ### Cutting the source -/

/-- The kind of token that an opener stands for, and where that token ends; any other match is a token by itself. -/
def resolve (matched : Kind) (length : Nat) (text : List Char) : LexemeForm × Nat :=
  let extended (kind : Kind) (extent : Extent) : LexemeForm × Nat :=
    (if extent.closed then .token kind else .unterminated matched, extent.length)
  match matched with
  | .blockCommentStart => extended .blockComment (Extent.blockComment text)
  | .lineCommentStart => (.token .lineComment, Extent.lineComment text)
  | .stringStart => extended .stringLit (Extent.string text)
  | .verbatimStart => extended .verbatimStringLit (Extent.verbatimString text)
  | .charStart =>
    match Extent.quotedInteger? text with
    | some length => (.token .integerLit, length)
    | none => extended .charLit (Extent.charLiteral text)
  | _ => (.token matched, length)

/-- How many characters come before the first place where a pattern matches. -/
def unrecognizedLength : List Char → Nat
  | [] => 0
  | c :: rest => if (match? (c :: rest)).isSome then 0 else unrecognizedLength rest + 1

/-- The form of the first lexeme of a text, and its length in characters. -/
def first (text : List Char) : LexemeForm × Nat :=
  match match? text with
  | some (kind, length) => resolve kind length text
  | none => (.unrecognized, unrecognizedLength text)

/-- Cuts the whole text. A lexeme has at least one character. -/
def cut : List Char → List Lexeme
  | [] => []
  | c :: rest =>
    let (form, length) := first (c :: rest)
    ⟨form, c :: rest.take (length - 1)⟩ :: cut (rest.drop (length - 1))
termination_by text => text.length
decreasing_by
  simp only [List.length_drop, List.length_cons]
  omega

/-! ### What can be wrong with a lexeme -/

/-- What is wrong with a piece of the source, and where in the piece. -/
structure Fault where
  kind : DiagnosticKind
  offset : Nat
  length : Nat
  detail : Option String

/-- The fault of a literal that its decoder rejects. -/
def literalFault (text : String) (error : LiteralError) : Fault :=
  let (offset, length) := error.extent text.utf8ByteSize
  let kind := match error with
    | .invalidEscape .. => .invalidEscape
    | .notOneChar => .invalidCharLiteral
    | .integerOverflow _ | .malformed _ => .invalidNumber
  ⟨kind, offset, length, some error.message⟩

/-- The error of the decoder that belongs to a kind of literal. -/
def literalError? (kind : Kind) (text : String) : Option LiteralError :=
  let error? {α : Type} : Except LiteralError α → Option LiteralError
    | .ok _ => none
    | .error error => some error
  match kind with
  | .integerLit => error? (Literal.decodeInteger text)
  | .floatLit => error? (Literal.decodeFloat text)
  | .stringLit => error? (Literal.decodeString text)
  | .charLit => error? (Literal.decodeChar text)
  | _ => none

/-- What is left open at an opener: the kind of the report, the length of the opener and what it opens. -/
def unterminatedFault : Kind → Fault
  | .blockCommentStart => ⟨.unterminatedComment, 0, 2, some "block comment"⟩
  | .stringStart => ⟨.unterminatedString, 0, 1, some "string"⟩
  | .verbatimStart => ⟨.unterminatedString, 0, 2, some "verbatim string"⟩
  | _ => ⟨.unterminatedString, 0, 1, some "char literal"⟩

def fault? (lexeme : Lexeme) : Option Fault :=
  match lexeme.form with
  | .token kind =>
    let text := String.ofList lexeme.text
    (literalError? kind text).map (literalFault text)
  | .unterminated opener => some (unterminatedFault opener)
  | .unrecognized => some ⟨.unrecognizedCharacter, 0, byteLength lexeme.text, none⟩

/-- A piece with a fault is garbage. -/
def kind (lexeme : Lexeme) : Kind :=
  match lexeme.form, lexeme.fault? with
  | .token kind, none => kind
  | _, _ => .garbage

end Lexeme

end Squirrel

/-!
# Kinds of diagnostics

What can be wrong with a script. The kinds are listed by priority: where two reports overlap, the kind listed first
makes the other one redundant. Unclosed delimiters and broken tokens come first, since much of what follows them is
noise; then come missing constructs, then constructs in the wrong place.
-/

namespace Squirrel

inductive DiagnosticKind where
  -- delimiters and tokens left open
  | unclosedParen | unclosedBracket | unclosedBrace | unclosedAttribute | unterminatedComment | unterminatedString
  -- rejected tokens
  | invalidEscape | invalidCharLiteral | invalidNumber | unrecognizedCharacter
  -- missing constructs
  | expectedExpression | expectedStatement | expectedIdentifier | expectedConstValue | expectedTerminator
  | expectedMember
  -- misplaced constructs
  | unexpectedToken | unexpectedEof | tableNotAllowed | caseAfterDefault | duplicateDefault | variadicNotLast
  deriving DecidableEq, Inhabited

inductive Severity where
  | error | warning
  deriving DecidableEq

namespace Severity

def name : Severity → String
  | error => "error"
  | warning => "warning"

end Severity

/-- Which pass found the problem. -/
inductive Stage where
  | lexing | parsing
  deriving DecidableEq

namespace Stage

def name : Stage → String
  | lexing => "lex"
  | parsing => "parse"

end Stage

/-- The families of problems that a caller can tell apart. -/
inductive ErrorCategory where
  | lexError | unexpectedToken | unexpectedEndOfInput
  deriving DecidableEq

namespace ErrorCategory

def name : ErrorCategory → String
  | lexError => "lex_error"
  | unexpectedToken => "unexpected_token"
  | unexpectedEndOfInput => "unexpected_end_of_input"

end ErrorCategory

namespace DiagnosticKind

def count : Nat := 22

def all : List DiagnosticKind := (List.range count).map DiagnosticKind.ofNat

/-- Lower numbers have priority. -/
def number (kind : DiagnosticKind) : Nat := kind.ctorIdx

/-- Whether a report of the first kind makes an overlapping one of the second kind redundant. -/
def suppresses (kind other : DiagnosticKind) : Bool := kind.number < other.number

/-- Every kind stops a script from being valid. -/
def severity (_ : DiagnosticKind) : Severity := .error

/-- A delimiter that is never closed. -/
def isStructural : DiagnosticKind → Bool
  | unclosedParen | unclosedBracket | unclosedBrace | unclosedAttribute => true
  | _ => false

/-- Something required that was left out. -/
def isRootCause : DiagnosticKind → Bool
  | expectedExpression | expectedStatement | expectedIdentifier | expectedConstValue | expectedTerminator
  | expectedMember => true
  | _ => false

def stage : DiagnosticKind → Stage
  | unterminatedComment | unterminatedString | invalidEscape | invalidCharLiteral | invalidNumber
  | unrecognizedCharacter => .lexing
  | _ => .parsing

def category : DiagnosticKind → ErrorCategory
  | unclosedParen | unclosedBracket | unclosedBrace | unclosedAttribute | unterminatedComment | unterminatedString
  | unexpectedEof => .unexpectedEndOfInput
  | invalidEscape | invalidCharLiteral | invalidNumber | unrecognizedCharacter => .lexError
  | _ => .unexpectedToken

/-! ### Wording -/

/-- A hint that every diagnostic of the kind carries. -/
def hint? : DiagnosticKind → Option String
  | tableNotAllowed =>
    some "tables are allowed after `=`, `<-`, `return`, in call arguments and as ternary branches"
  | variadicNotLast => some "move `...` to the end of the parameter list"
  | expectedConstValue => some "constants take literals, arrays, tables, names or calls"
  | _ => none

/-- The message when nothing more is known. -/
def baseMessage : DiagnosticKind → String
  | unclosedParen => "missing closing `)`"
  | unclosedBracket => "missing closing `]`"
  | unclosedBrace => "missing closing `\x7d`"
  | unclosedAttribute => "missing closing `/>`"
  | unterminatedComment => "unterminated block comment"
  | unterminatedString => "unterminated string"
  | invalidEscape => "invalid escape sequence"
  | invalidCharLiteral => "invalid char literal"
  | invalidNumber => "invalid number literal"
  | unrecognizedCharacter => "unrecognized character"
  | expectedExpression => "expected an expression"
  | expectedStatement => "expected a statement"
  | expectedIdentifier => "expected an identifier"
  | expectedConstValue => "expected a constant value"
  | expectedTerminator => "expected `;` or a line break"
  | expectedMember => "expected a class member"
  | unexpectedToken => "unexpected token"
  | unexpectedEof => "unexpected end of input"
  | tableNotAllowed => "table literal is not allowed here"
  | caseAfterDefault => "`case` after `default`"
  | duplicateDefault => "duplicate `default`"
  | variadicNotLast => "`...` must be the last parameter"

/-- What a message says before the detail that the reporter gives. -/
def lead (kind : DiagnosticKind) : String :=
  match kind with
  | unclosedParen | unclosedBracket | unclosedBrace | unclosedAttribute => kind.baseMessage ++ "; "
  | unterminatedComment | unterminatedString => "unterminated "
  | invalidEscape | invalidCharLiteral | invalidNumber => ""
  | expectedExpression | expectedStatement | expectedIdentifier | expectedConstValue | expectedMember =>
    kind.baseMessage ++ " "
  | expectedTerminator => "expected "
  | _ => kind.baseMessage ++ ": "

def message (kind : DiagnosticKind) : Option String → String
  | none => kind.baseMessage
  | some detail => kind.lead ++ detail

def name : DiagnosticKind → String
  | unclosedParen => "UnclosedParen"
  | unclosedBracket => "UnclosedBracket"
  | unclosedBrace => "UnclosedBrace"
  | unclosedAttribute => "UnclosedAttribute"
  | unterminatedComment => "UnterminatedComment"
  | unterminatedString => "UnterminatedString"
  | invalidEscape => "InvalidEscape"
  | invalidCharLiteral => "InvalidCharLiteral"
  | invalidNumber => "InvalidNumber"
  | unrecognizedCharacter => "UnrecognizedCharacter"
  | expectedExpression => "ExpectedExpression"
  | expectedStatement => "ExpectedStatement"
  | expectedIdentifier => "ExpectedIdentifier"
  | expectedConstValue => "ExpectedConstValue"
  | expectedTerminator => "ExpectedTerminator"
  | expectedMember => "ExpectedMember"
  | unexpectedToken => "UnexpectedToken"
  | unexpectedEof => "UnexpectedEof"
  | tableNotAllowed => "TableNotAllowed"
  | caseAfterDefault => "CaseAfterDefault"
  | duplicateDefault => "DuplicateDefault"
  | variadicNotLast => "VariadicNotLast"

def ofName? (text : String) : Option DiagnosticKind := all.find? (·.name == text)

end DiagnosticKind

end Squirrel

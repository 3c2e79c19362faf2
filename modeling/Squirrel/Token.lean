import Squirrel.Token.Lexeme

/-!
# Tokens

The lexemes of a source with their kinds and positions. Comments and blanks are tokens too, so the texts of all tokens
in order are the source; every garbage token comes with one diagnostic.
-/

namespace Squirrel

structure Token where
  kind : Kind
  /-- The offset of its first byte. -/
  start : Nat
  text : String
  deriving DecidableEq, Inhabited

namespace Token

def stop (token : Token) : Nat := token.start + token.text.utf8ByteSize

def span (token : Token) : Span := ⟨token.start, token.stop⟩

/-- Whether the token is a line break, or a comment that goes on after one. -/
def breaksLine (token : Token) : Bool :=
  match token.kind with
  | .newline => true
  | .blockComment => token.text.toList.contains '\n'
  | _ => false

end Token

/-- The tokens of a source and what is wrong with those that are garbage. -/
structure Lexed where
  tokens : List Token
  diagnostics : List Diagnostic

namespace Lexed

/-- The token and the diagnostic of a lexeme at an offset. -/
def place (offset : Nat) (lexeme : Lexeme) : Token × Option Diagnostic :=
  let token : Token := ⟨lexeme.kind, offset, String.ofList lexeme.text⟩
  let diagnostic? := lexeme.fault?.map fun fault =>
    let start := offset + fault.offset
    Diagnostic.report fault.kind ⟨start, start + fault.length⟩ fault.detail
  (token, diagnostic?)

/-- Each lexeme with the offset at which it starts. -/
def placed (offset : Nat) : List Lexeme → List (Token × Option Diagnostic)
  | [] => []
  | lexeme :: rest => place offset lexeme :: placed (offset + byteLength lexeme.text) rest

def ofSource (source : String) : Lexed :=
  let pieces := placed 0 (Lexeme.cut source.toList)
  ⟨pieces.map (·.1), pieces.filterMap (·.2)⟩

end Lexed

end Squirrel

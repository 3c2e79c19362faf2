import Squirrel.Grammar.Rule

/-!
# Reports and recovery

How rules report what is wrong and go on. At most one report starts at a place: a rule that finds something missing
where something else has already been reported stays silent. What has to be skipped goes under an error node, and a
delimiter that the input never closes is reported from its opener to the end.
-/

namespace Squirrel.Grammar

/-- Moves past a token of the given kind, or reports that it is missing. -/
def expect (kind : Kind) (what : String) : Rule Bool := do
  if ← eat kind then return true
  else
    let span ← currentSpan
    let problem := if ← atEnd then .unexpectedEof else .unexpectedToken
    let missing := (Diagnostic.report problem span (some ("expected " ++ what))).withExpected [kind]
    .ofStep (.reportOnce span.start missing)
    return false

/-- A report at a span. Something missing at the end of the input becomes an unexpected end, with the wording of what is
missing as its detail. -/
def reportAt (span : Span) (ranOut : Bool) (kind : DiagnosticKind) (detail : Option String) : Diagnostic :=
  if ranOut && (kind.isRootCause || kind == .unexpectedToken) then
    let whole := match detail with
      | some detail => kind.baseMessage ++ " " ++ detail
      | none => kind.baseMessage
    .report .unexpectedEof span (some whole)
  else .report kind span detail

/-- Reports at the token here. -/
def reportHere (kind : DiagnosticKind) (detail : Option String) : Rule Unit := do
  let span ← currentSpan
  let ranOut ← atEnd
  .ofStep (.reportOnce span.start (reportAt span ranOut kind detail))

/-! ### Skipping -/

/-- Puts the token here under an error node. -/
def advanceAsError : Rule Unit := do
  if ← atEnd then return else node .error advance

/-- Garbage carries a report already. -/
def advanceGarbage : Rule Unit := do
  let _ ← current
  advanceAsError

/-- Skips to a token of the set, a limit or the end. -/
def skipUntil (recovery : TokenSet) : Rule Unit := do
  if ← currentIn recovery then return
  else if ← stopped then return
  else
    advance
    call (.skipUntil recovery)

/-- Reports, and skips to a token of the set unless one is here. -/
def recover (kind : DiagnosticKind) (detail : String) (recovery : TokenSet) : Rule Unit := do
  if ← currentIn recovery <||> stopped then reportHere kind (some detail)
  else node .error do
    reportHere kind (some detail)
    call (.skipUntil recovery)

/-- Skips at least one token and all that follow up to one that a statement may start or end with. -/
def skipToStatement : Rule Unit := do
  advance
  if ← stopped then return
  else if ← currentIn .statementSync then return
  else call .skipToStatement

def recoverStatement : Rule Unit := do
  if ← stopped then return
  else node .error do
    reportHere .expectedStatement none
    call .skipToStatement

/-- Below the limit of nesting stands an error node. It stays empty, as the exceeded limit has stopped the parse. -/
def abandon : Rule Unit := node .error (pure ())

/-! ### Delimiters -/

/-- Moves past an opening delimiter and remembers it until it is closed. -/
def openDelimiter (kind : Kind) : Rule Unit := do
  let span ← currentSpan
  .ofStep (.pushOpener ⟨kind, span⟩)
  advance

/-- The report about an opener that is never closed. -/
def unclosedKind : Kind → DiagnosticKind
  | .parenOpen => .unclosedParen
  | .bracketOpen => .unclosedBracket
  | .attributeOpen => .unclosedAttribute
  | _ => .unclosedBrace

/-- Moves past the closer of the innermost open delimiter, or reports what is missing. -/
def closeDelimiter (close : Kind) (construct : String) : Rule Unit := do
  let opener? ← .ofStep .popOpener
  if ← eat close then return
  else
    match opener?, ← atEnd with
    | some opener, true =>
      let span ← currentSpan
      let unclosed := Diagnostic.report (unclosedKind opener.kind) ⟨opener.span.start, span.stop⟩
        (some ("expected " ++ close.displayName))
      .ofStep (.reportOnce span.stop (unclosed.withRelated ⟨opener.span, construct ++ " started here"⟩))
    | _, _ =>
      let _ ← expect close close.displayName

/-! ### Ends of statements -/

/-- A semicolon, a line break, a closing brace or the end of the input. -/
def expectTerminator (after : String) : Rule Unit := do
  if ← eat .semicolon <||> atEnd <||> currentIs .braceClose <||> .ofStep .afterLineBreak then return
  else reportHere .expectedTerminator (some ("`;` or a line break after " ++ after))

/-- A semicolon and nothing else. The fix puts one after the previous token. -/
def expectSemicolon (after : String) : Rule Unit := do
  if ← eat .semicolon then return
  else
    match ← .ofStep .previous with
    | none => return
    | some token =>
      let missing := Diagnostic.report .expectedTerminator token.span (some ("`;` after " ++ after))
      .ofStep (.reportOnce token.start (missing.withFix ⟨"insert `;`", token.text ++ ";"⟩))

end Squirrel.Grammar

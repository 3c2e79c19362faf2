import Squirrel.Grammar.Operator
import Squirrel.Grammar.Recovery

/-!
# Literals, arrays, tables, arguments and parameters

Commas between the elements of an array or the slots of a table may be left out; between arguments and between
parameters they may not.
-/

namespace Squirrel.Grammar

/-- A full expression, in a place where a table literal is not allowed. -/
def expression : Rule Unit := call (.expression 0 false)

/-- A full expression or a table literal. -/
def expressionOrTable : Rule Unit := call (.expression 0 true)

def startsExpression : Rule Bool := currentIn .expressionFirst

def startsExpressionOrTable : Rule Bool := startsExpression <||> currentIs .braceOpen

/-! ### Literals -/

/-- The node around a single literal token. -/
def literalNode? : Kind → Option Kind
  | .integerLit => some .integer
  | .floatLit => some .float
  | .stringLit => some .str
  | .verbatimStringLit => some .verbatimStr
  | .charLit => some .char
  | .kwTrue | .kwFalse => some .bool
  | .kwNull => some .null
  | _ => none

/-- A literal, if the kind of the token here is that of one. -/
def literal (kind : Kind) : Rule Bool :=
  match literalNode? kind with
  | none => return false
  | some nodeKind => do
    node nodeKind advance
    return true

/-- A minus sign and the number right after it, as one literal. -/
def negativeLiteral : Rule Unit := do
  let number ← .ofStep .adjacent
  node (if number == .floatLit then .float else .integer) do
    advance
    advance

/-! ### Arrays -/

def array : Rule Unit := node .array do
  openDelimiter .bracketOpen
  call .elements
  closeDelimiter .bracketClose "array"

def elements : Rule Unit := do
  if ← stopped <||> currentIs .bracketClose then return
  else if ← startsExpressionOrTable then
    expressionOrTable
    let _ ← eat .comma
    call .elements
  else
    recover .expectedExpression "in array" .arrayRecovery
    if ← eat .comma then call .elements

/-! ### Tables -/

def table : Rule Unit := node .table do
  openDelimiter .braceOpen
  call .slots
  closeDelimiter .braceClose "table"

/-! ### Constants -/

/-- A literal, a negative number, an array, a table, a name or a call. -/
def constValue : Rule Unit := do
  let kind ← current
  match kind with
  | .minus =>
    if ← .ofStep .numberFollows then negativeLiteral else reportHere .expectedConstValue none
  | .bracketOpen => array
  | .braceOpen => table
  | .id | .doubleColon | .kwRawcall => call (.expression Power.accessor false)
  | .garbage => advanceGarbage
  | kind =>
    if ← literal kind then return else reportHere .expectedConstValue none

/-! ### Arguments -/

def callArguments : Rule Unit := node .callArgs do
  if ← currentIs .parenOpen then
    openDelimiter .parenOpen
    call .arguments
    closeDelimiter .parenClose "argument list"
  else
    let _ ← expect .parenOpen "`(` to open argument list"

def arguments : Rule Unit := do
  if ← stopped <||> currentIs .parenClose then return
  else
    if ← startsExpressionOrTable then expressionOrTable
    else recover .expectedExpression "in argument list" .argumentsRecovery
    if ← eat .comma then call .arguments

/-! ### Parameters -/

def parameters : Rule Unit := node .parameters do
  if ← currentIs .parenOpen then
    openDelimiter .parenOpen
    call (.parameterList [] 0)
    closeDelimiter .parenClose "parameter list"
  else
    let _ ← expect .parenOpen "`(` to open parameter list"

/-- Reports every variadic parameter that is not the last of `count` parameters. -/
def checkVariadics (count : Nat) : List (Nat × Span) → Rule Unit
  | [] => return
  | (index, span) :: rest => do
    if index + 1 ≠ count then .ofStep (.report (.report .variadicNotLast span none))
    checkVariadics count rest

/-- Names, each with an optional constant after `=`, and `...`. -/
def parameterList (variadics : List (Nat × Span)) (count : Nat) : Rule Unit := do
  if ← stopped <||> currentIs .parenClose then checkVariadics count variadics
  else
    let kind ← current
    match kind with
    | .id =>
      node .parameter do
        advance
        if ← eat .equals then constValue
      if ← eat .comma then call (.parameterList variadics (count + 1))
      else checkVariadics (count + 1) variadics
    | .ellipsis =>
      let span ← currentSpan
      node .parameter advance
      let variadics := variadics ++ [(count, span)]
      if ← eat .comma then call (.parameterList variadics (count + 1))
      else checkVariadics (count + 1) variadics
    | _ =>
      recover .expectedIdentifier "or `...` in parameter list" .parametersRecovery
      if ← eat .comma then call (.parameterList variadics count)
      else checkVariadics count variadics

end Squirrel.Grammar

import Squirrel.Grammar.Definition

/-!
# Expressions

An expression is an operand and the suffixes that take it in, one after the other, as long as they bind tightly enough.
Each suffix wraps everything since the start of the expression, so chains of operators need no recursion.
-/

namespace Squirrel.Grammar

/-! ### Operands -/

def parenthesized : Rule Unit := node .parenthesizedExpression do
  openDelimiter .parenOpen
  expression
  closeDelimiter .parenClose "parenthesized expression"

def lambda : Rule Unit := node .lambdaExpression do
  advance
  parameters
  expression

def anonymousFunction : Rule Unit := node .anonymousFunction do
  advance
  parameters
  body "function body"

/-- A keyword and the expression after it. -/
def keywordOperand (kind : Kind) : Rule Unit := node kind do
  advance
  expression

def prefixed : Rule Unit := node .unaryExpression do
  advance
  call (.expression Power.accessor true)

/-- A table literal; where none is allowed it is reported and put under an error node. -/
def tableOperand (allowed : Bool) : Rule Unit :=
  if allowed then table
  else do
    reportHere .tableNotAllowed none
    node .error table

/-- A primary expression, possibly behind prefix operators. Without an answer of `true` nothing here starts one. -/
def operand (tableAllowed : Bool) : Rule Bool := do
  let kind ← current
  let whole (rule : Rule Unit) : Rule Bool := do
    rule
    return true
  match kind with
  | .minus => if ← .ofStep .numberFollows then whole negativeLiteral else whole prefixed
  | .bang | .tilde | .kwTypeof | .plusPlus | .minusMinus => whole prefixed
  | .parenOpen => whole parenthesized
  | .bracketOpen => whole array
  | .braceOpen => whole (tableOperand tableAllowed)
  | .id => whole (node .identifier advance)
  | .doubleColon =>
    whole do
      node .globalVariable do
        advance
        let _ ← expect .id "identifier after `::`"
  | .atSign => whole lambda
  | .kwFunction => whole anonymousFunction
  | .kwClone => whole (keywordOperand .cloneExpression)
  | .kwDelete => whole (keywordOperand .deleteExpression)
  | .kwResume => whole (keywordOperand .resumeExpression)
  | .kwRawcall =>
    whole do
      node .callExpression do
        advance
        callArguments
  | .garbage => whole advanceGarbage
  | kind => literal kind

/-! ### Suffixes -/

/-- What a suffix places after its left operand. -/
def suffix : Suffix → Rule Unit
  | .member => do
    advance
    let _ ← expect .id "member name after `.`"
  | .index => do
    openDelimiter .bracketOpen
    expression
    closeDelimiter .bracketClose "index"
  | .call => callArguments
  | .increment => advance
  | .ternary => do
    advance
    expressionOrTable
    if ← expect .colon "`:` in ternary expression" then call (.expression Power.ternary true)
  | .assignment | .update => do
    advance
    call (.expression Power.assignment true)
  | .binary power => do
    advance
    call (.expression (power + 1) false)

def operators (start power : Nat) : Rule Unit := do
  if ← stopped then return
  else
    let kind ← current
    let afterLineBreak ← .ofStep .afterLineBreak
    match Suffix.of? power afterLineBreak kind with
    | none => return
    | some found =>
      nodeFrom start found.node (suffix found)
      call (.operators start power)

/-- An expression whose operators bind at least as tightly as the power. -/
def expressionOf (power : Nat) (tableAllowed : Bool) : Rule Unit := do
  if ← .ofStep .descend then
    let start ← .ofStep .mark
    if ← operand tableAllowed then call (.operators start power)
    else reportHere .expectedExpression none
    .ofStep .ascend
  else abandon

/-! ### Table slots -/

/-- `name = value`, `[key] = value`, `key : value` or a function. -/
def slot : Rule Unit := node .tableSlot do
  let kind ← current
  let next ← .ofStep .next
  if kind == .id && next == .equals then
    advance
    let _ ← expect .equals "`=` after slot name"
    expressionOrTable
  else if kind == .bracketOpen then
    openDelimiter .bracketOpen
    expression
    closeDelimiter .bracketClose "computed key"
    if ← expect .equals "`=` after computed key" then expressionOrTable
  else if kind == .kwFunction && next == .id then functionDeclaration
  else
    -- a key binds more tightly than the ternary, so that `:` ends it
    call (.expression (Power.ternary + 1) false)
    if ← expect .colon "`:` or `=` in table slot" then expressionOrTable

def slots : Rule Unit := do
  if ← stopped <||> currentIs .braceClose then return
  else if ← startsExpression then
    slot
    let _ ← eat .comma
    call .slots
  else
    recover .unexpectedToken "expected a table slot" .tableRecovery
    if ← startsExpression <||> eat .comma then call .slots

end Squirrel.Grammar

import Squirrel.Build.Definition
import Squirrel.Grammar.Statement

/-!
# Routines of expressions and statements

A suffix opens its node at the mark where the expression starts, behind which its left operand stands.
-/

namespace Squirrel.Build

open Grammar

/-! ### Operands -/

def parenthesized : Routine Unit := do
  startNode .parenthesizedExpression
  openDelimiter .parenOpen
  expression
  closeDelimiter .parenClose "parenthesized expression"
  finishNode

def lambda : Routine Unit := do
  startNode .lambdaExpression
  advance
  parameters
  expression
  finishNode

def anonymousFunction : Routine Unit := do
  startNode .anonymousFunction
  advance
  parameters
  body "function body"
  finishNode

def keywordOperand (kind : Kind) : Routine Unit := do
  startNode kind
  advance
  expression
  finishNode

def prefixed : Routine Unit := do
  startNode .unaryExpression
  advance
  call (.expression Power.accessor true)
  finishNode

def tableOperand (allowed : Bool) : Routine Unit := do
  if allowed then
    table
    return
  reportHere .tableNotAllowed none
  startNode .error
  table
  finishNode

def operand (tableAllowed : Bool) : Routine Bool := do
  let kind ← current
  match kind with
  | .minus => if ← Rule.ofStep .numberFollows then negativeLiteral else prefixed
  | .bang | .tilde | .kwTypeof | .plusPlus | .minusMinus => prefixed
  | .parenOpen => parenthesized
  | .bracketOpen => array
  | .braceOpen => tableOperand tableAllowed
  | .id =>
    startNode .identifier
    advance
    finishNode
  | .doubleColon =>
    startNode .globalVariable
    advance
    let _ ← expect .id "identifier after `::`"
    finishNode
  | .atSign => lambda
  | .kwFunction => anonymousFunction
  | .kwClone => keywordOperand .cloneExpression
  | .kwDelete => keywordOperand .deleteExpression
  | .kwResume => keywordOperand .resumeExpression
  | .kwRawcall =>
    startNode .callExpression
    advance
    callArguments
    finishNode
  | .garbage => advanceGarbage
  | kind => return ← literal kind
  return true

/-! ### Suffixes -/

def suffix (start : Nat) : Suffix → Routine Unit
  | .member => do
    startNodeAt start .derefExpression
    advance
    let _ ← expect .id "member name after `.`"
    finishNode
  | .index => do
    startNodeAt start .indexExpression
    openDelimiter .bracketOpen
    expression
    closeDelimiter .bracketClose "index"
    finishNode
  | .call => do
    startNodeAt start .callExpression
    callArguments
    finishNode
  | .increment => do
    startNodeAt start .unaryExpression
    advance
    finishNode
  | .ternary => do
    startNodeAt start .ternaryExpression
    advance
    expressionOrTable
    if ← expect .colon "`:` in ternary expression" then call (.expression Power.ternary true)
    finishNode
  | .assignment => do
    startNodeAt start .assignmentExpression
    advance
    call (.expression Power.assignment true)
    finishNode
  | .update => do
    startNodeAt start .updateExpression
    advance
    call (.expression Power.assignment true)
    finishNode
  | .binary power => do
    startNodeAt start .binaryExpression
    advance
    call (.expression (power + 1) false)
    finishNode

def operators (start power : Nat) : Routine Unit := do
  if ← stopped then return
  let kind ← current
  let afterLineBreak ← Rule.ofStep .afterLineBreak
  match Suffix.of? power afterLineBreak kind with
  | none => return
  | some found =>
    suffix start found
    call (.operators start power)

def expressionOf (power : Nat) (tableAllowed : Bool) : Routine Unit := do
  if not (← Rule.ofStep .descend) then
    abandon
    return
  let start ← Rule.ofStep .mark
  if ← operand tableAllowed then call (.operators start power)
  else reportHere .expectedExpression none
  Rule.ofStep .ascend

/-! ### Table slots -/

def slot : Routine Unit := do
  startNode .tableSlot
  let kind ← current
  let next ← Rule.ofStep .next
  if kind == .id && next == .equals then
    advance
    let _ ← expect .equals "`=` after slot name"
    expressionOrTable
  else if kind == .bracketOpen then
    openDelimiter .bracketOpen
    expression
    closeDelimiter .bracketClose "computed key"
    if ← expect .equals "`=` after computed key" then expressionOrTable
  else if kind == .kwFunction && next == .id then functionDeclaration
  else
    call (.expression (Power.ternary + 1) false)
    if ← expect .colon "`:` or `=` in table slot" then expressionOrTable
  finishNode

def slots : Routine Unit := do
  if ← stopped <||> currentIs .braceClose then return
  if ← startsExpression then
    slot
    let _ ← eat .comma
    call .slots
    return
  recover .unexpectedToken "expected a table slot" .tableRecovery
  if ← startsExpression <||> eat .comma then call .slots

/-! ### Blocks -/

def block : Routine Unit := do
  startNode .block
  openDelimiter .braceOpen
  call .blockStatements
  closeDelimiter .braceClose "block"
  finishNode

/-! ### Conditions and loops -/

def ifStatement : Routine Unit := do
  startNode .ifStatement
  advance
  if ← currentIs .parenOpen then parenthesized
  else
    let _ ← expect .parenOpen "`(` after `if`"
  body "`if` branch"
  if ← currentIs .kwElse then
    startNode .elseStatement
    advance
    body "`else` branch"
    finishNode
  finishNode

def whileStatement : Routine Unit := do
  startNode .whileStatement
  advance
  parenHeader "`while` condition"
  if ← startsStatement then call .statement
  finishNode

def doWhileStatement : Routine Unit := do
  startNode .doWhileStatement
  advance
  body "`do` body"
  if ← expect .kwWhile "`while` after `do` body" then parenHeader "`while` condition"
  let _ ← eat .semicolon
  finishNode

def localBindings : Routine Unit := do
  if not (← currentIs .id) then
    reportHere .expectedIdentifier (some "after `local`")
    return
  startNode .localBinding
  advance
  if ← currentIs .equals <||> currentIs .newSlot then
    advance
    expressionOrTable
  finishNode
  if ← eat .comma then call .localBindings

def localDeclaration (isStatement : Bool) : Routine Unit := do
  startNode .localDeclaration
  advance
  call .localBindings
  if isStatement then
    let _ ← eat .semicolon
  finishNode

def forStatement : Routine Unit := do
  startNode .forStatement
  advance
  let opened ← openHeader "`for`"
  if ← currentIs .kwLocal then localDeclaration false else optionalExpression
  let _ ← expect .semicolon "`;` after `for` initializer"
  optionalExpression
  let _ ← expect .semicolon "`;` after `for` condition"
  optionalExpression
  closeHeader opened "`for` header"
  body "`for` body"
  finishNode

def foreachStatement : Routine Unit := do
  startNode .foreachStatement
  advance
  let opened ← openHeader "`foreach`"
  if ← expect .id "loop variable" then
    if ← eat .comma then
      let _ ← expect .id "value variable after `,`"
  if ← expect .kwIn "`in`" then expression
  closeHeader opened "`foreach` header"
  body "`foreach` body"
  finishNode

/-! ### Switch -/

def caseClause : Routine Unit := do
  startNode .caseStatement
  advance
  expression
  let _ ← expect .colon "`:` after `case` value"
  call .caseStatements
  finishNode

def defaultClause : Routine Unit := do
  startNode .defaultStatement
  advance
  let _ ← expect .colon "`:` after `default`"
  call .caseStatements
  finishNode

def switchClauses (seenDefault : Bool) : Routine Unit := do
  if ← stopped then return
  let kind ← current
  match kind with
  | .braceClose => return
  | .kwCase =>
    if seenDefault then reportHere .caseAfterDefault none
    caseClause
    call (.switchClauses seenDefault)
  | .kwDefault =>
    if seenDefault then reportHere .duplicateDefault none
    defaultClause
    call (.switchClauses true)
  | _ =>
    recover .unexpectedToken "expected `case` or `default`" .caseBodyEnd
    call (.switchClauses seenDefault)

def switchStatement : Routine Unit := do
  startNode .switchStatement
  advance
  parenHeader "`switch` value"
  if not (← currentIs .braceOpen) then
    let _ ← expect .braceOpen "`\x7b` to open `switch` body"
    finishNode
    return
  openDelimiter .braceOpen
  call (.switchClauses false)
  closeDelimiter .braceClose "`switch` body"
  finishNode

/-! ### Jumps -/

def jumpStatement (kind : Kind) (keyword : String) : Routine Unit := do
  startNode kind
  advance
  expectSemicolon keyword
  finishNode

def returnStatement : Routine Unit := do
  startNode .returnStatement
  advance
  if ← startsExpressionOrTable then expressionOrTable
  let _ ← eat .semicolon
  finishNode

def yieldStatement : Routine Unit := do
  startNode .yieldStatement
  advance
  if ← startsExpression <&&> (not <$> Rule.ofStep .afterLineBreak) then expression
  expectTerminator "`yield`"
  finishNode

def throwStatement : Routine Unit := do
  startNode .throwStatement
  advance
  expression
  let _ ← eat .semicolon
  finishNode

/-! ### Declarations and errors -/

def varStatement : Routine Unit := do
  startNode .varStatement
  advance
  if ← expect .id "variable name after `var`" then
    if ← expect .equals "`=` after variable name" then expressionOrTable
  let _ ← eat .semicolon
  finishNode

def tryStatement : Routine Unit := do
  startNode .tryStatement
  advance
  body "`try` body"
  if ← currentIs .kwCatch then
    startNode .catchStatement
    advance
    if ← currentIs .parenOpen then
      openDelimiter .parenOpen
      let _ ← expect .id "exception variable"
      closeDelimiter .parenClose "`catch` binding"
    else
      let _ ← expect .parenOpen "`(` after `catch`"
    body "`catch` body"
    finishNode
  else
    let _ ← expect .kwCatch "`catch` after `try` body"
  finishNode

def expressionStatement : Routine Unit := do
  startNode .expressionStatement
  expression
  let _ ← eat .semicolon
  finishNode

/-! ### All statements -/

def knownStatement : Routine Unit := do
  let kind ← current
  match kind with
  | .braceOpen => block
  | .semicolon =>
    startNode .emptyStatement
    advance
    finishNode
  | .kwIf => ifStatement
  | .kwWhile => whileStatement
  | .kwDo => doWhileStatement
  | .kwSwitch => switchStatement
  | .kwFor => forStatement
  | .kwForeach => foreachStatement
  | .kwBreak => jumpStatement .breakStatement "`break`"
  | .kwContinue => jumpStatement .continueStatement "`continue`"
  | .kwReturn => returnStatement
  | .kwYield => yieldStatement
  | .kwLocal => localDeclaration true
  | .kwVar => varStatement
  | .kwFunction =>
    let next ← Rule.ofStep .next
    if next == .id then functionDeclaration else expressionStatement
  | .kwClass => classDeclaration
  | .kwTry => tryStatement
  | .kwThrow => throwStatement
  | .kwConst => constDeclaration
  | .kwEnum => enumDeclaration
  | _ => expressionStatement

def statement : Routine Unit := do
  if not (← Rule.ofStep .descend) then
    abandon
    return
  if ← currentIs .garbage then advanceGarbage
  else if ← startsStatement then knownStatement
  else recoverStatement
  Rule.ofStep .ascend

def script : Routine Unit := do
  if ← stopped then return
  if ← currentIs .braceClose then
    reportHere .unexpectedToken (some "unmatched `\x7d`")
    advanceAsError
    call .script
    return
  call .statement
  call .script

/-- A whole script: all that the source holds, under one root. -/
def wholeScript : Routine Unit := do
  startNode .script
  call .script
  Rule.ofStep .placeTrivia
  finishNode

/-- The routine of every nonterminal. -/
def routineOf : Nonterminal → Routine Unit
  | .script => script
  | .statement => statement
  | .blockStatements => blockStatements
  | .caseStatements => caseStatements
  | .switchClauses seenDefault => switchClauses seenDefault
  | .localBindings => localBindings
  | .expression power tableAllowed => expressionOf power tableAllowed
  | .operators start power => operators start power
  | .arguments => arguments
  | .elements => elements
  | .slots => slots
  | .parameterList variadics count => parameterList variadics count
  | .path separator => path separator
  | .members => members
  | .enumEntries => enumEntries
  | .attributeList => attributeList
  | .skipUntil recovery => skipUntil recovery
  | .skipToStatement => skipToStatement

end Squirrel.Build

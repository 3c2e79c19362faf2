import Squirrel.Build.Routine
import Squirrel.Grammar.Definition

/-!
# Routines of recovery, collections and definitions

Each routine takes the steps of the rule of the same name, and opens and closes the nodes itself. Where it returns early
it closes them first. Rules that open no node are used as they are.
-/

namespace Squirrel.Build

open Grammar

/-! ### Skipping -/

def advanceAsError : Routine Unit := do
  if not (← atEnd) then
    startNode .error
    advance
    finishNode

def advanceGarbage : Routine Unit := do
  let _ ← current
  advanceAsError

def recover (kind : DiagnosticKind) (detail : String) (recovery : TokenSet) : Routine Unit := do
  if ← currentIn recovery <||> stopped then
    reportHere kind (some detail)
    return
  startNode .error
  reportHere kind (some detail)
  call (.skipUntil recovery)
  finishNode

def recoverStatement : Routine Unit := do
  if ← stopped then return
  startNode .error
  reportHere .expectedStatement none
  call .skipToStatement
  finishNode

/-- Nothing is left to skip, as the exceeded limit has stopped the parse. -/
def abandon : Routine Unit := do
  startNode .error
  finishNode

/-! ### Literals -/

def literal (kind : Kind) : Routine Bool := do
  match literalNode? kind with
  | none => return false
  | some nodeKind =>
    startNode nodeKind
    advance
    finishNode
    return true

def negativeLiteral : Routine Unit := do
  let number ← Rule.ofStep .adjacent
  startNode (if number == .floatLit then .float else .integer)
  advance
  advance
  finishNode

/-! ### Arrays and tables -/

def array : Routine Unit := do
  startNode .array
  openDelimiter .bracketOpen
  call .elements
  closeDelimiter .bracketClose "array"
  finishNode

def elements : Routine Unit := do
  if ← stopped <||> currentIs .bracketClose then return
  if ← startsExpressionOrTable then
    expressionOrTable
    let _ ← eat .comma
    call .elements
    return
  recover .expectedExpression "in array" .arrayRecovery
  if ← eat .comma then call .elements

def table : Routine Unit := do
  startNode .table
  openDelimiter .braceOpen
  call .slots
  closeDelimiter .braceClose "table"
  finishNode

/-! ### Constants -/

def constValue : Routine Unit := do
  let kind ← current
  match kind with
  | .minus =>
    if ← Rule.ofStep .numberFollows then negativeLiteral else reportHere .expectedConstValue none
  | .bracketOpen => array
  | .braceOpen => table
  | .id | .doubleColon | .kwRawcall => call (.expression Power.accessor false)
  | .garbage => advanceGarbage
  | kind =>
    if not (← literal kind) then reportHere .expectedConstValue none

/-! ### Arguments -/

def callArguments : Routine Unit := do
  startNode .callArgs
  if not (← currentIs .parenOpen) then
    let _ ← expect .parenOpen "`(` to open argument list"
    finishNode
    return
  openDelimiter .parenOpen
  call .arguments
  closeDelimiter .parenClose "argument list"
  finishNode

def arguments : Routine Unit := do
  if ← stopped <||> currentIs .parenClose then return
  if ← startsExpressionOrTable then expressionOrTable
  else recover .expectedExpression "in argument list" .argumentsRecovery
  if ← eat .comma then call .arguments

/-! ### Parameters -/

def parameters : Routine Unit := do
  startNode .parameters
  if not (← currentIs .parenOpen) then
    let _ ← expect .parenOpen "`(` to open parameter list"
    finishNode
    return
  openDelimiter .parenOpen
  call (.parameterList [] 0)
  closeDelimiter .parenClose "parameter list"
  finishNode

def parameterList (variadics : List (Nat × Span)) (count : Nat) : Routine Unit := do
  if ← stopped <||> currentIs .parenClose then
    checkVariadics count variadics
    return
  let kind ← current
  match kind with
  | .id =>
    startNode .parameter
    advance
    if ← eat .equals then constValue
    finishNode
    if ← eat .comma then call (.parameterList variadics (count + 1))
    else checkVariadics (count + 1) variadics
  | .ellipsis =>
    let span ← currentSpan
    startNode .parameter
    advance
    finishNode
    let variadics := variadics ++ [(count, span)]
    if ← eat .comma then call (.parameterList variadics (count + 1))
    else checkVariadics (count + 1) variadics
  | _ =>
    recover .expectedIdentifier "or `...` in parameter list" .parametersRecovery
    if ← eat .comma then call (.parameterList variadics count)
    else checkVariadics count variadics

/-! ### Functions -/

def functionDeclaration : Routine Unit := do
  startNode .functionDeclaration
  advance
  if ← expect .id "function name" then call (.path .doubleColon)
  parameters
  body "function body"
  finishNode

/-! ### Attributes -/

def attributes : Routine Unit := do
  startNode .attributeDeclaration
  openDelimiter .attributeOpen
  call .attributeList
  closeDelimiter .attributeClose "attribute block"
  finishNode

def attributeList : Routine Unit := do
  if ← stopped <||> currentIs .attributeClose then return
  if ← currentIs .id then
    startNode .attributeEntry
    advance
    if ← expect .equals "`=` after attribute name" then constValue
    finishNode
    attributesGoOn
  else
    recover .expectedIdentifier "in attribute block" .attributesRecovery
    if ← currentIs .comma <||> currentIs .id then attributesGoOn

def optionalAttributes : Routine Unit := do
  if ← currentIs .attributeOpen then attributes

/-! ### Classes -/

def member : Routine Unit := do
  startNode .memberDeclaration
  optionalAttributes
  let kind ← current
  match kind with
  | .kwStatic | .id =>
    let _ ← eat .kwStatic
    let isNamed ← expect .id "field name"
    memberValue isNamed "`=` after field name"
  | .bracketOpen =>
    openDelimiter .bracketOpen
    expression
    closeDelimiter .bracketClose "computed member name"
    memberValue true "`=` after computed member name"
  | .kwFunction => functionDeclaration
  | .kwConstructor =>
    advance
    parameters
    body "constructor body"
  | _ => reportHere .expectedMember (some "after attributes")
  finishNode

def members : Routine Unit := do
  if ← stopped <||> currentIs .braceClose then return
  if ← currentIn .memberFirst then member else recover .expectedMember "in class body" .memberRecovery
  call .members

def classDeclaration : Routine Unit := do
  startNode .classDeclaration
  advance
  if ← expect .id "class name" then call (.path .dot)
  if ← eat .kwExtends then
    let _ ← expect .id "base class after `extends`"
  optionalAttributes
  if not (← currentIs .braceOpen) then
    let _ ← expect .braceOpen "`\x7b` to open class body"
    finishNode
    return
  openDelimiter .braceOpen
  call .members
  closeDelimiter .braceClose "class body"
  finishNode

/-! ### Enums and constants -/

def enumEntries : Routine Unit := do
  if ← stopped <||> currentIs .braceClose then return
  if ← currentIs .id then
    startNode .enumEntry
    advance
    if ← eat .equals then constValue
    finishNode
    if ← eat .comma then call .enumEntries
  else
    recover .expectedIdentifier "in enum body" .enumRecovery
    if ← currentIs .id <||> eat .comma then call .enumEntries

def enumDeclaration : Routine Unit := do
  startNode .enumDeclaration
  advance
  let _ ← expect .id "enum name"
  optionalAttributes
  if not (← currentIs .braceOpen) then
    let _ ← expect .braceOpen "`\x7b` to open enum body"
    finishNode
    return
  openDelimiter .braceOpen
  call .enumEntries
  closeDelimiter .braceClose "enum body"
  let _ ← eat .semicolon
  finishNode

def constDeclaration : Routine Unit := do
  startNode .constDeclaration
  advance
  if ← expect .id "constant name" then
    if ← expect .equals "`=` after constant name" then
      constValue
      expectTerminator "constant"
  finishNode

end Squirrel.Build

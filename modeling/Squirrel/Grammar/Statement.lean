import Squirrel.Grammar.Expression

/-!
# Statements
-/

namespace Squirrel.Grammar

/-! ### Blocks -/

def block : Rule Unit := node .block do
  openDelimiter .braceOpen
  call .blockStatements
  closeDelimiter .braceClose "block"

def blockStatements : Rule Unit := do
  if ← stopped <||> currentIs .braceClose then return
  else
    call .statement
    call .blockStatements

/-! ### Conditions and loops -/

/-- An expression in parentheses that belong to the statement itself. -/
def parenHeader (construct : String) : Rule Unit := do
  if ← currentIs .parenOpen then
    openDelimiter .parenOpen
    expression
    closeDelimiter .parenClose construct
  else
    let _ ← expect .parenOpen ("`(` after " ++ construct)
    if ← startsExpression then
      expression
      let _ ← expect .parenClose "`)`"

/-- An `else` belongs to the nearest `if`. -/
def ifStatement : Rule Unit := node .ifStatement do
  advance
  if ← currentIs .parenOpen then parenthesized
  else
    let _ ← expect .parenOpen "`(` after `if`"
  body "`if` branch"
  if ← currentIs .kwElse then
    node .elseStatement do
      advance
      body "`else` branch"

/-- The body may be left out. -/
def whileStatement : Rule Unit := node .whileStatement do
  advance
  parenHeader "`while` condition"
  if ← startsStatement then call .statement

def doWhileStatement : Rule Unit := node .doWhileStatement do
  advance
  body "`do` body"
  if ← expect .kwWhile "`while` after `do` body" then parenHeader "`while` condition"
  let _ ← eat .semicolon

/-- Whether a header opens here; if it does not, that is reported and the header is read all the same. -/
def openHeader (statement : String) : Rule Bool := do
  if ← currentIs .parenOpen then
    openDelimiter .parenOpen
    return true
  else
    let _ ← expect .parenOpen ("`(` after " ++ statement)
    return false

def closeHeader (opened : Bool) (construct : String) : Rule Unit := do
  if opened then closeDelimiter .parenClose construct
  else
    let _ ← expect .parenClose "`)`"

def optionalExpression : Rule Unit := do
  if ← startsExpression then expression

/-- One binding after `local`, with `=` or `<-` before its value, and those that follow a comma. -/
def localBindings : Rule Unit := do
  if ← currentIs .id then
    node .localBinding do
      advance
      if ← currentIs .equals <||> currentIs .newSlot then
        advance
        expressionOrTable
    if ← eat .comma then call .localBindings
  else reportHere .expectedIdentifier (some "after `local`")

/-- In the header of a `for` the semicolon belongs to the header. -/
def localDeclaration (isStatement : Bool) : Rule Unit := node .localDeclaration do
  advance
  call .localBindings
  if isStatement then
    let _ ← eat .semicolon

/-- The semicolons of the header tell its three clauses apart. -/
def forStatement : Rule Unit := node .forStatement do
  advance
  let opened ← openHeader "`for`"
  if ← currentIs .kwLocal then localDeclaration false else optionalExpression
  let _ ← expect .semicolon "`;` after `for` initializer"
  optionalExpression
  let _ ← expect .semicolon "`;` after `for` condition"
  optionalExpression
  closeHeader opened "`for` header"
  body "`for` body"

def foreachStatement : Rule Unit := node .foreachStatement do
  advance
  let opened ← openHeader "`foreach`"
  if ← expect .id "loop variable" then
    if ← eat .comma then
      let _ ← expect .id "value variable after `,`"
  if ← expect .kwIn "`in`" then expression
  closeHeader opened "`foreach` header"
  body "`foreach` body"

/-! ### Switch -/

def caseStatements : Rule Unit := do
  if ← stopped <||> currentIn .caseBodyEnd then return
  else
    call .statement
    call .caseStatements

def caseClause : Rule Unit := node .caseStatement do
  advance
  expression
  let _ ← expect .colon "`:` after `case` value"
  call .caseStatements

def defaultClause : Rule Unit := node .defaultStatement do
  advance
  let _ ← expect .colon "`:` after `default`"
  call .caseStatements

def switchClauses (seenDefault : Bool) : Rule Unit := do
  if ← stopped then return
  else
    let kind ← current
    match kind with
    | .braceClose => return
    | .kwCase =>
      if seenDefault then reportHere .caseAfterDefault none
      caseClause
      call (.switchClauses seenDefault)
    | .kwDefault =>
      if seenDefault then reportHere .duplicateDefault none
      defaultClause
      call (.switchClauses true)
    | _ =>
      recover .unexpectedToken "expected `case` or `default`" .caseBodyEnd
      call (.switchClauses seenDefault)

def switchStatement : Rule Unit := node .switchStatement do
  advance
  parenHeader "`switch` value"
  if ← currentIs .braceOpen then
    openDelimiter .braceOpen
    call (.switchClauses false)
    closeDelimiter .braceClose "`switch` body"
  else
    let _ ← expect .braceOpen "`\x7b` to open `switch` body"

/-! ### Jumps -/

/-- `break` and `continue` need their semicolon. -/
def jumpStatement (kind : Kind) (keyword : String) : Rule Unit := node kind do
  advance
  expectSemicolon keyword

def returnStatement : Rule Unit := node .returnStatement do
  advance
  if ← startsExpressionOrTable then expressionOrTable
  let _ ← eat .semicolon

/-- A value starts on the line of its `yield`. -/
def yieldStatement : Rule Unit := node .yieldStatement do
  advance
  if ← startsExpression <&&> (not <$> .ofStep .afterLineBreak) then expression
  expectTerminator "`yield`"

def throwStatement : Rule Unit := node .throwStatement do
  advance
  expression
  let _ ← eat .semicolon

/-! ### Declarations and errors -/

def varStatement : Rule Unit := node .varStatement do
  advance
  if ← expect .id "variable name after `var`" then
    if ← expect .equals "`=` after variable name" then expressionOrTable
  let _ ← eat .semicolon

def tryStatement : Rule Unit := node .tryStatement do
  advance
  body "`try` body"
  if ← currentIs .kwCatch then
    node .catchStatement do
      advance
      if ← currentIs .parenOpen then
        openDelimiter .parenOpen
        let _ ← expect .id "exception variable"
        closeDelimiter .parenClose "`catch` binding"
      else
        let _ ← expect .parenOpen "`(` after `catch`"
      body "`catch` body"
  else
    let _ ← expect .kwCatch "`catch` after `try` body"

def expressionStatement : Rule Unit := node .expressionStatement do
  expression
  let _ ← eat .semicolon

/-! ### All statements -/

/-- The statement that starts at the token here. -/
def knownStatement : Rule Unit := do
  let kind ← current
  match kind with
  | .braceOpen => block
  | .semicolon => node .emptyStatement advance
  | .kwIf => ifStatement
  | .kwWhile => whileStatement
  | .kwDo => doWhileStatement
  | .kwSwitch => switchStatement
  | .kwFor => forStatement
  | .kwForeach => foreachStatement
  | .kwBreak => jumpStatement .breakStatement "`break`"
  | .kwContinue => jumpStatement .continueStatement "`continue`"
  | .kwReturn => returnStatement
  | .kwYield => yieldStatement
  | .kwLocal => localDeclaration true
  | .kwVar => varStatement
  | .kwFunction =>
    let next ← .ofStep .next
    if next == .id then functionDeclaration else expressionStatement
  | .kwClass => classDeclaration
  | .kwTry => tryStatement
  | .kwThrow => throwStatement
  | .kwConst => constDeclaration
  | .kwEnum => enumDeclaration
  | _ => expressionStatement

/-- A statement, or an error node around what cannot start one. -/
def statement : Rule Unit := do
  if ← .ofStep .descend then
    if ← currentIs .garbage then advanceGarbage
    else if ← startsStatement then knownStatement
    else recoverStatement
    .ofStep .ascend
  else abandon

def script : Rule Unit := do
  if ← stopped then return
  else if ← currentIs .braceClose then
    reportHere .unexpectedToken (some "unmatched `\x7d`")
    advanceAsError
    call .script
  else
    call .statement
    call .script

/-- The rule of every nonterminal. -/
def ruleOf : Nonterminal → Rule Unit
  | .script => script
  | .statement => statement
  | .blockStatements => blockStatements
  | .caseStatements => caseStatements
  | .switchClauses seenDefault => switchClauses seenDefault
  | .localBindings => localBindings
  | .expression power tableAllowed => expressionOf power tableAllowed
  | .operators start power => operators start power
  | .arguments => arguments
  | .elements => elements
  | .slots => slots
  | .parameterList variadics count => parameterList variadics count
  | .path separator => path separator
  | .members => members
  | .enumEntries => enumEntries
  | .attributeList => attributeList
  | .skipUntil recovery => skipUntil recovery
  | .skipToStatement => skipToStatement

end Squirrel.Grammar

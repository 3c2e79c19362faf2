import Squirrel.Grammar.Collection

/-!
# Functions, classes, enums, constants and attributes
-/

namespace Squirrel.Grammar

/-! ### Bodies -/

def startsStatement : Rule Bool := currentIn .statementFirst

/-- A statement where the grammar requires one. -/
def body (owner : String) : Rule Unit := do
  if ← startsStatement then call .statement else reportHere .expectedStatement (some ("for " ++ owner))

/-! ### Functions -/

/-- The rest of a name after its first segment. -/
def path (separator : Kind) : Rule Unit := do
  if ← eat separator then
    if ← expect .id ("name segment after " ++ separator.displayName) then call (.path separator)

def functionDeclaration : Rule Unit := node .functionDeclaration do
  advance
  if ← expect .id "function name" then call (.path .doubleColon)
  parameters
  body "function body"

/-! ### Attributes -/

def attributes : Rule Unit := node .attributeDeclaration do
  openDelimiter .attributeOpen
  call .attributeList
  closeDelimiter .attributeClose "attribute block"

/-- After an attribute or what was skipped in place of one: another one follows a comma or stands here. -/
def attributesGoOn : Rule Unit := do
  if ← eat .comma <||> currentIs .id then call .attributeList

def attributeList : Rule Unit := do
  if ← stopped <||> currentIs .attributeClose then return
  else if ← currentIs .id then
    node .attributeEntry do
      advance
      if ← expect .equals "`=` after attribute name" then constValue
    attributesGoOn
  else
    recover .expectedIdentifier "in attribute block" .attributesRecovery
    if ← currentIs .comma <||> currentIs .id then attributesGoOn

def optionalAttributes : Rule Unit := do
  if ← currentIs .attributeOpen then attributes

/-! ### Classes -/

/-- The value of a field or of a computed member, and the end of the member. -/
def memberValue (isNamed : Bool) (what : String) : Rule Unit := do
  if isNamed then
    if ← expect .equals what then expressionOrTable
  let _ ← eat .semicolon

def member : Rule Unit := node .memberDeclaration do
  optionalAttributes
  let kind ← current
  match kind with
  | .kwStatic | .id =>
    let _ ← eat .kwStatic
    let isNamed ← expect .id "field name"
    memberValue isNamed "`=` after field name"
  | .bracketOpen =>
    openDelimiter .bracketOpen
    expression
    closeDelimiter .bracketClose "computed member name"
    memberValue true "`=` after computed member name"
  | .kwFunction => functionDeclaration
  | .kwConstructor =>
    advance
    parameters
    body "constructor body"
  | _ => reportHere .expectedMember (some "after attributes")

def members : Rule Unit := do
  if ← stopped <||> currentIs .braceClose then return
  else
    if ← currentIn .memberFirst then member else recover .expectedMember "in class body" .memberRecovery
    call .members

def classDeclaration : Rule Unit := node .classDeclaration do
  advance
  if ← expect .id "class name" then call (.path .dot)
  if ← eat .kwExtends then
    let _ ← expect .id "base class after `extends`"
  optionalAttributes
  if ← currentIs .braceOpen then
    openDelimiter .braceOpen
    call .members
    closeDelimiter .braceClose "class body"
  else
    let _ ← expect .braceOpen "`\x7b` to open class body"

/-! ### Enums -/

def enumEntries : Rule Unit := do
  if ← stopped <||> currentIs .braceClose then return
  else if ← currentIs .id then
    node .enumEntry do
      advance
      if ← eat .equals then constValue
    if ← eat .comma then call .enumEntries
  else
    recover .expectedIdentifier "in enum body" .enumRecovery
    if ← currentIs .id <||> eat .comma then call .enumEntries

def enumDeclaration : Rule Unit := node .enumDeclaration do
  advance
  let _ ← expect .id "enum name"
  optionalAttributes
  if ← currentIs .braceOpen then
    openDelimiter .braceOpen
    call .enumEntries
    closeDelimiter .braceClose "enum body"
    let _ ← eat .semicolon
  else
    let _ ← expect .braceOpen "`\x7b` to open enum body"

/-! ### Constants -/

def constDeclaration : Rule Unit := node .constDeclaration do
  advance
  if ← expect .id "constant name" then
    if ← expect .equals "`=` after constant name" then
      constValue
      expectTerminator "constant"

end Squirrel.Grammar

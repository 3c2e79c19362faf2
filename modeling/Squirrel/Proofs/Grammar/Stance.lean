import Squirrel.Grammar.Statement
import Squirrel.Proofs.Parse.Stance

/-!
# The rules open their nodes behind a look

Nearly every rule is called, or goes on, after a look at the token here. The exceptions are the parameters of a lambda,
of a function without a name and of a constructor, and the arguments of a raw call, which stand right behind their word.
-/

namespace Squirrel

namespace Grammar

open Rule

variable {known : Stance}

section

variable {ended : Unit → Stance → Prop} {marked : Unit → Nat → Stance → Prop}

/-! ### Small rules -/

@[simp] theorem fills_call (nonterminal : Nonterminal) (ended : Unit → Prop) :
    (call nonterminal).Fills ended ↔ nonterminal.fills = true ∨ ended () := Iff.rfl

@[simp] theorem fills_node (kind : Kind) (inner : Rule Unit) (ended : Unit → Prop) :
    (node kind inner).Fills ended ↔ inner.Fills fun _ => ended () := by
  rw [node, fills_bind, fills_ofStep]
  simp [nodeFrom, Rule.Fills, Step.isMove]

@[simp] theorem fills_advance (ended : Unit → Prop) : advance.Fills ended := .inr (.inl rfl)

@[simp] theorem fills_current (ended : Kind → Prop) : current.Fills ended ↔ ∀ kind, ended kind := by
  simp [current, Step.isMove]

@[simp] theorem fills_currentIs (kind : Kind) (ended : Bool → Prop) :
    (currentIs kind).Fills ended ↔ ∀ found : Kind, ended (found == kind) := by
  simp [currentIs]

@[simp] theorem fills_reportHere (kind : DiagnosticKind) (detail : Option String) (ended : Unit → Prop) :
    (reportHere kind detail).Fills ended := by
  simp [reportHere, currentSpan, atEnd]

@[simp] theorem fills_expect (kind : Kind) (what : String) (ended : Bool → Prop) : (expect kind what).Fills ended := by
  simp [expect, eat, currentIs, currentSpan, atEnd]

@[simp] theorem fills_openDelimiter (kind : Kind) (ended : Unit → Prop) : (openDelimiter kind).Fills ended := by
  simp [openDelimiter, currentSpan]

@[simp] theorem neat_call (nonterminal : Nonterminal) : (call nonterminal).Neat none known ended marked ↔
    nonterminal.looksFirst = true ∧ ended () (.behind nonterminal) := Iff.rfl

@[simp] theorem neat_node (kind : Kind) (inner : Rule Unit) : (node kind inner).Neat none known ended marked ↔
    known.Opens kind ∧ inner.Fills (fun _ => False) ∧
      inner.Neat none known.inside (fun _ _ => True) (fun _ _ _ => False) ∧ ended () .unknown := by
  constructor
  · intro hneat
    exact ((hneat rfl).2 0 rfl).2
  · exact fun hneat _ => ⟨trivial, fun start _ => ⟨rfl, hneat⟩⟩

@[simp] theorem neat_current {ended : Kind → Stance → Prop} {marked : Kind → Nat → Stance → Prop} :
    current.Neat none known ended marked ↔ ∀ kind, ended kind (known.seen kind) := by
  simp [current]

@[simp] theorem neat_currentSpan {ended : Span → Stance → Prop} {marked : Span → Nat → Stance → Prop} :
    currentSpan.Neat none known ended marked ↔ ∀ span, ended span known.looked := by
  simp [currentSpan]

@[simp] theorem neat_atEnd {ended : Bool → Stance → Prop} {marked : Bool → Nat → Stance → Prop} :
    atEnd.Neat none known ended marked ↔ ∀ ran, ended ran known := by
  simp [atEnd]

@[simp] theorem neat_stopped {ended : Bool → Stance → Prop} {marked : Bool → Nat → Stance → Prop} :
    stopped.Neat none known ended marked ↔ ∀ halted, ended halted known := by
  simp [stopped]

@[simp] theorem neat_advance : advance.Neat none known ended marked ↔ known.settled ∧ ended () known.moved :=
  ⟨fun hneat => ⟨(hneat rfl).1, (hneat rfl).2 () rfl⟩, fun hneat _ => ⟨hneat.1, fun _ _ => hneat.2⟩⟩

@[simp] theorem neat_currentIs (kind : Kind) {ended : Bool → Stance → Prop} {marked : Bool → Nat → Stance → Prop} :
    (currentIs kind).Neat none known ended marked ↔ ∀ found : Kind, ended (found == kind) (known.seen found) := by
  simp [currentIs]

@[simp] theorem neat_currentIn (set : TokenSet) {ended : Bool → Stance → Prop}
    {marked : Bool → Nat → Stance → Prop} :
    (currentIn set).Neat none known ended marked ↔ ∀ found, ended (set.contains found) (known.seen found) := by
  simp [currentIn]

@[simp] theorem neat_eat (kind : Kind) {ended : Bool → Stance → Prop} {marked : Bool → Nat → Stance → Prop} :
    (eat kind).Neat none known ended marked ↔
      ended true (known.seen kind).moved ∧ ∀ found, found ≠ kind → ended false (known.seen found) := by
  simp only [eat, neat_bind, neat_currentIs, neat_ite, neat_advance, neat_pure, Stance.settled_seen, true_and,
    beq_iff_eq]
  constructor
  · intro hall
    refine ⟨by simpa using hall kind, fun found hfound => ?_⟩
    simpa [hfound] using hall found
  · intro hall found
    by_cases hfound : found = kind
    · simpa [hfound] using hall.1
    · simpa [hfound] using hall.2 found hfound

/-! ### Reports and delimiters -/

@[simp] theorem neat_reportHere (kind : DiagnosticKind) (detail : Option String) :
    (reportHere kind detail).Neat none known ended marked := by
  simp [reportHere]

@[simp] theorem neat_expect (kind : Kind) (what : String) {ended : Bool → Stance → Prop}
    {marked : Bool → Nat → Stance → Prop} :
    (expect kind what).Neat none known ended marked ↔ ended true (known.seen kind).moved := by
  simp [expect]

@[simp] theorem neat_openDelimiter (kind : Kind) :
    (openDelimiter kind).Neat none known ended marked ↔ ended () known.looked.moved := by
  simp [openDelimiter]

@[simp] theorem neat_closeDelimiter (close : Kind) (construct : String) :
    (closeDelimiter close construct).Neat none known ended marked ↔ ended () (known.seen close).moved := by
  rw [closeDelimiter, neat_bind, neat_ofStep]
  simp only [Step.isReport, Step.Needs, Step.mark?, Step.reach, neat_bind, neat_eat, neat_ite, neat_pure, neat_atEnd]
  constructor
  · intro hneat
    exact ((hneat trivial).2 none rfl).1
  · refine fun hended _ => ⟨trivial, fun opener? _ => ⟨hended, fun found _ ran => ?_⟩⟩
    cases opener? with
    | none => simpa using hended
    | some opener =>
      cases ran with
      | true => simp
      | false => simpa using hended

end

section

variable {marked : Unit → Nat → Stance → Prop}

@[simp] theorem neat_recover (kind : DiagnosticKind) (detail : String) (recovery : TokenSet) :
    (recover kind detail recovery).Neat none known (fun _ _ => True) marked := by
  simp [recover]

@[simp] theorem neat_recoverStatement (hsettled : known.settled) :
    recoverStatement.Neat none known (fun _ _ => True) marked := by
  simp [recoverStatement, hsettled]

@[simp] theorem neat_advanceGarbage : advanceGarbage.Neat none known (fun _ _ => True) marked := by
  simp [advanceGarbage, advanceAsError]

@[simp] theorem neat_expectTerminator (what : String) :
    (expectTerminator what).Neat none known (fun _ _ => True) marked := by
  simp [expectTerminator]

@[simp] theorem neat_expectSemicolon (what : String) :
    (expectSemicolon what).Neat none known (fun _ _ => True) marked := by
  rw [expectSemicolon, neat_bind, neat_eat]
  refine ⟨trivial, fun _ _ => (neat_bind ..).mpr ((neat_ofStep _).mpr fun _ => ⟨trivial, fun token? _ => ?_⟩)⟩
  cases token? <;> simp

/-! ### Collections -/

@[simp] theorem neat_expression : expression.Neat none known (fun _ _ => True) marked := by simp [expression]

@[simp] theorem neat_expressionOrTable : expressionOrTable.Neat none known (fun _ _ => True) marked := by
  simp [expressionOrTable]

@[simp] theorem neat_startsExpression {ended : Bool → Stance → Prop} {marked : Bool → Nat → Stance → Prop} :
    startsExpression.Neat none known ended marked ↔
      ∀ found, ended (TokenSet.expressionFirst.contains found) (known.seen found) := by
  simp [startsExpression]

@[simp] theorem neat_startsStatement {ended : Bool → Stance → Prop} {marked : Bool → Nat → Stance → Prop} :
    startsStatement.Neat none known ended marked ↔
      ∀ found, ended (TokenSet.statementFirst.contains found) (known.seen found) := by
  simp [startsStatement]

@[simp] theorem neat_literal (kind : Kind) (hsettled : known.settled) {marked : Bool → Nat → Stance → Prop} :
    (literal kind).Neat none known (fun _ _ => True) marked := by
  rw [literal]
  split <;> simp [hsettled]

@[simp] theorem neat_negativeLiteral (hjoined : known.joined) :
    negativeLiteral.Neat none known (fun _ _ => True) marked := by
  simp [negativeLiteral, hjoined]

@[simp] theorem neat_array (hsettled : known.settled) : array.Neat none known (fun _ _ => True) marked := by
  simp [array, hsettled]

@[simp] theorem neat_elements : elements.Neat none known (fun _ _ => True) marked := by
  simp [elements, startsExpressionOrTable]

@[simp] theorem neat_table (hsettled : known.settled) : table.Neat none known (fun _ _ => True) marked := by
  simp [table, hsettled]

@[simp] theorem neat_constValue : constValue.Neat none known (fun _ _ => True) marked := by
  refine (neat_bind ..).mpr (neat_current.mpr fun kind => ?_)
  split <;> simp

/-- Arguments start at their parenthesis, or right behind the word that announces them. -/
@[simp] theorem neat_callArguments (hopens : known.Opens .callArgs) :
    callArguments.Neat none known (fun _ _ => True) marked := by
  simpa [callArguments] using hopens

@[simp] theorem neat_arguments : arguments.Neat none known (fun _ _ => True) marked := by
  simp [arguments, startsExpressionOrTable]

@[simp] theorem neat_parameters (hopens : known.Opens .parameters) :
    parameters.Neat none known (fun _ _ => True) marked := by
  simpa [parameters] using hopens

@[simp] theorem neat_checkVariadics (count : Nat) (variadics : List (Nat × Span)) :
    (checkVariadics count variadics).Neat none known (fun _ _ => True) marked := by
  induction variadics generalizing known marked with
  | nil => trivial
  | cons variadic rest ih => simp [checkVariadics, ih]

@[simp] theorem neat_parameterList (variadics : List (Nat × Span)) (count : Nat) :
    (parameterList variadics count).Neat none known (fun _ _ => True) marked := by
  rw [parameterList, neat_bind, neat_orM, neat_stopped]
  intro halted
  cases halted with
  | true => exact neat_checkVariadics count variadics
  | false =>
    refine (neat_currentIs .parenClose).mpr fun found => ?_
    cases found == .parenClose with
    | true => exact neat_checkVariadics count variadics
    | false =>
      refine (neat_bind ..).mpr (neat_current.mpr fun kind => ?_)
      split <;> simp

/-! ### Definitions -/

@[simp] theorem neat_body (owner : String) : (body owner).Neat none known (fun _ _ => True) marked := by simp [body]

/-- What follows a path has been looked at. -/
theorem neat_path (separator : Kind) :
    (path separator).Neat none known (fun _ after => after.settled) marked := by
  simp [path]

@[simp] theorem neat_functionDeclaration (hsettled : known.settled) :
    functionDeclaration.Neat none known (fun _ _ => True) marked := by
  simp [functionDeclaration, hsettled]

@[simp] theorem neat_attributes (hsettled : known.settled) :
    attributes.Neat none known (fun _ _ => True) marked := by
  simp [attributes, hsettled]

@[simp] theorem neat_attributesGoOn : attributesGoOn.Neat none known (fun _ _ => True) marked := by
  simp [attributesGoOn]

@[simp] theorem neat_attributeList : attributeList.Neat none known (fun _ _ => True) marked := by
  simp [attributeList]

@[simp] theorem neat_optionalAttributes : optionalAttributes.Neat none known (fun _ _ => True) marked := by
  simp [optionalAttributes]

@[simp] theorem neat_memberValue (isNamed : Bool) (what : String) :
    (memberValue isNamed what).Neat none known (fun _ _ => True) marked := by
  simp [memberValue]

@[simp] theorem fills_functionDeclaration (ended : Unit → Prop) : functionDeclaration.Fills ended := by
  simp [functionDeclaration]

theorem fills_optionalAttributes {ended : Unit → Prop} (hended : ended ()) : optionalAttributes.Fills ended := by
  simp [optionalAttributes, attributes, hended]

@[simp] theorem neat_member (hsettled : known.settled) : member.Neat none known (fun _ _ => True) marked := by
  refine (neat_node ..).mpr
    ⟨.inl hsettled, (fills_bind ..).mpr (fills_optionalAttributes ?_), (neat_bind ..).mpr ?_, trivial⟩
  · refine (fills_bind ..).mpr ((fills_current _).mpr fun kind => ?_)
    split <;> simp [eat]
  · refine neat_optionalAttributes.mono (fun _ after _ => ?_) fun _ _ _ => id
    refine (neat_bind ..).mpr (neat_current.mpr fun kind => ?_)
    split <;> simp [Kind.leadsTo]

@[simp] theorem neat_members : members.Neat none known (fun _ _ => True) marked := by simp [members]

@[simp] theorem neat_classDeclaration (hsettled : known.settled) :
    classDeclaration.Neat none known (fun _ _ => True) marked := by
  simp [classDeclaration, hsettled]

@[simp] theorem neat_enumEntries : enumEntries.Neat none known (fun _ _ => True) marked := by
  simp [enumEntries]

@[simp] theorem neat_enumDeclaration (hsettled : known.settled) :
    enumDeclaration.Neat none known (fun _ _ => True) marked := by
  simp [enumDeclaration, hsettled]

@[simp] theorem neat_constDeclaration (hsettled : known.settled) :
    constDeclaration.Neat none known (fun _ _ => True) marked := by
  simp [constDeclaration, hsettled]

/-! ### Expressions -/

@[simp] theorem neat_parenthesized (hsettled : known.settled) :
    parenthesized.Neat none known (fun _ _ => True) marked := by
  simp [parenthesized, hsettled]

/-- The parameters stand right behind the word that has been seen. -/
@[simp] theorem neat_lambda : lambda.Neat none (known.seen .atSign) (fun _ _ => True) marked := by
  simp [lambda, Kind.leadsTo]

@[simp] theorem neat_anonymousFunction :
    anonymousFunction.Neat none (known.seen .kwFunction) (fun _ _ => True) marked := by
  simp [anonymousFunction, Kind.leadsTo]

@[simp] theorem neat_keywordOperand (kind : Kind) (hsettled : known.settled) :
    (keywordOperand kind).Neat none known (fun _ _ => True) marked := by
  simp [keywordOperand, hsettled]

@[simp] theorem neat_prefixed (hsettled : known.settled) : prefixed.Neat none known (fun _ _ => True) marked := by
  simp [prefixed, hsettled]

@[simp] theorem neat_tableOperand (allowed : Bool) (hsettled : known.settled) :
    (tableOperand allowed).Neat none known (fun _ _ => True) marked := by
  cases allowed <;> simp [tableOperand, hsettled]

@[simp] theorem neat_operand (tableAllowed : Bool) {marked : Bool → Nat → Stance → Prop} :
    (operand tableAllowed).Neat none known (fun _ _ => True) marked := by
  refine (neat_bind ..).mpr (neat_current.mpr fun kind => ?_)
  split <;> simp [Kind.leadsTo]

/-- A suffix starts at the token that tells it. -/
@[simp] theorem neat_suffix (found : Suffix) (hsettled : known.settled) :
    (suffix found).Neat none known (fun _ _ => True) marked := by
  cases found <;> simp [suffix, hsettled]

@[simp] theorem neat_slot (hsettled : known.settled) : slot.Neat none known (fun _ _ => True) marked := by
  simp [slot, hsettled]

@[simp] theorem neat_slots : slots.Neat none known (fun _ _ => True) marked := by simp [slots]

/-! ### Statements -/

@[simp] theorem neat_block (hsettled : known.settled) : block.Neat none known (fun _ _ => True) marked := by
  simp [block, hsettled]

@[simp] theorem neat_blockStatements : blockStatements.Neat none known (fun _ _ => True) marked := by
  simp [blockStatements]

@[simp] theorem neat_parenHeader (construct : String) :
    (parenHeader construct).Neat none known (fun _ _ => True) marked := by
  simp [parenHeader]

@[simp] theorem neat_ifStatement (hsettled : known.settled) :
    ifStatement.Neat none known (fun _ _ => True) marked := by
  simp [ifStatement, hsettled]

@[simp] theorem neat_whileStatement (hsettled : known.settled) :
    whileStatement.Neat none known (fun _ _ => True) marked := by
  simp [whileStatement, hsettled]

@[simp] theorem neat_doWhileStatement (hsettled : known.settled) :
    doWhileStatement.Neat none known (fun _ _ => True) marked := by
  simp [doWhileStatement, hsettled]

@[simp] theorem neat_openHeader (statement : String) {marked : Bool → Nat → Stance → Prop} :
    (openHeader statement).Neat none known (fun _ _ => True) marked := by
  simp [openHeader]

@[simp] theorem neat_closeHeader (opened : Bool) (construct : String) :
    (closeHeader opened construct).Neat none known (fun _ _ => True) marked := by
  simp [closeHeader]

@[simp] theorem neat_optionalExpression : optionalExpression.Neat none known (fun _ _ => True) marked := by
  simp [optionalExpression]

@[simp] theorem neat_localBindings : localBindings.Neat none known (fun _ _ => True) marked := by
  simp [localBindings]

@[simp] theorem neat_localDeclaration (isStatement : Bool) (hsettled : known.settled) :
    (localDeclaration isStatement).Neat none known (fun _ _ => True) marked := by
  simp [localDeclaration, hsettled]

@[simp] theorem neat_forStatement (hsettled : known.settled) :
    forStatement.Neat none known (fun _ _ => True) marked := by
  simp [forStatement, hsettled]

@[simp] theorem neat_foreachStatement (hsettled : known.settled) :
    foreachStatement.Neat none known (fun _ _ => True) marked := by
  simp [foreachStatement, hsettled]

@[simp] theorem neat_caseStatements : caseStatements.Neat none known (fun _ _ => True) marked := by
  simp [caseStatements]

@[simp] theorem neat_caseClause (hsettled : known.settled) :
    caseClause.Neat none known (fun _ _ => True) marked := by
  simp [caseClause, hsettled]

@[simp] theorem neat_defaultClause (hsettled : known.settled) :
    defaultClause.Neat none known (fun _ _ => True) marked := by
  simp [defaultClause, hsettled]

@[simp] theorem neat_switchClauses (seenDefault : Bool) :
    (switchClauses seenDefault).Neat none known (fun _ _ => True) marked := by
  rw [switchClauses, neat_bind, neat_stopped]
  intro halted
  cases halted with
  | true => trivial
  | false =>
    refine (neat_bind ..).mpr (neat_current.mpr fun kind => ?_)
    split <;> simp

@[simp] theorem neat_switchStatement (hsettled : known.settled) :
    switchStatement.Neat none known (fun _ _ => True) marked := by
  simp [switchStatement, hsettled]

@[simp] theorem neat_jumpStatement (kind : Kind) (keyword : String) (hsettled : known.settled) :
    (jumpStatement kind keyword).Neat none known (fun _ _ => True) marked := by
  simp [jumpStatement, hsettled]

@[simp] theorem neat_returnStatement (hsettled : known.settled) :
    returnStatement.Neat none known (fun _ _ => True) marked := by
  simp [returnStatement, startsExpressionOrTable, hsettled]

@[simp] theorem neat_yieldStatement (hsettled : known.settled) :
    yieldStatement.Neat none known (fun _ _ => True) marked := by
  simp [yieldStatement, hsettled]

@[simp] theorem neat_throwStatement (hsettled : known.settled) :
    throwStatement.Neat none known (fun _ _ => True) marked := by
  simp [throwStatement, hsettled]

@[simp] theorem neat_varStatement (hsettled : known.settled) :
    varStatement.Neat none known (fun _ _ => True) marked := by
  simp [varStatement, hsettled]

@[simp] theorem neat_tryStatement (hsettled : known.settled) :
    tryStatement.Neat none known (fun _ _ => True) marked := by
  simp [tryStatement, hsettled]

@[simp] theorem neat_expressionStatement (hsettled : known.settled) :
    expressionStatement.Neat none known (fun _ _ => True) marked := by
  simp [expressionStatement, expression, hsettled]

@[simp] theorem neat_knownStatement : knownStatement.Neat none known (fun _ _ => True) marked := by
  refine (neat_bind ..).mpr (neat_current.mpr fun kind => ?_)
  split <;> simp

@[simp] theorem neat_statement : statement.Neat none known (fun _ _ => True) marked := by simp [statement]

@[simp] theorem neat_script : script.Neat none known (fun _ _ => True) marked := by
  simp [script, advanceAsError]

@[simp] theorem neat_skipUntil (recovery : TokenSet) :
    (skipUntil recovery).Neat none known (fun _ _ => True) marked := by
  simp [skipUntil]

/-- The rule of every nonterminal that may be called anywhere, apart from expressions, which set a mark of their own. -/
theorem neat_ruleOf (nonterminal : Nonterminal) (hlooks : nonterminal.looksFirst = true)
    (hplain : nonterminal.fills = false) :
    (ruleOf nonterminal).Neat none known (fun _ after => nonterminal.looksLast = true → after.settled) marked := by
  have hother {rule : Rule Unit} (hneat : rule.Neat none known (fun _ _ => True) marked) :
      rule.Neat none known (fun _ after => false = true → after.settled) marked :=
    hneat.mono (fun _ _ _ => nofun) fun _ _ _ => id
  cases nonterminal with
  | path separator => exact (neat_path separator).mono (fun _ _ hsettled _ => hsettled) fun _ _ _ => id
  | expression => exact nomatch hplain
  | operators | skipToStatement => exact nomatch hlooks
  | _ => exact hother (by simp [ruleOf])

end

end Grammar

end Squirrel

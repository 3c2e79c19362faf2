import Squirrel.Proofs.Grammar.Primitive

/-!
# Rules that build plain nodes

Most rules build nodes of kinds with a single operand or none, on top of what has been placed before. That can be read
off a rule without running it.
-/

namespace Squirrel

/-- Kinds of nodes with more than one operand. -/
@[simp] def Kind.hasSides : Kind → Bool
  | binaryExpression | ternaryExpression | assignmentExpression | updateExpression | indexExpression | tableSlot
  | memberDeclaration => true
  | _ => false

/-- Whether a nonterminal goes on with what another one has placed. -/
@[simp] def Nonterminal.goesOn : Nonterminal → Bool
  | operators .. => true
  | _ => false

/-- A mark is not below the trees that have been placed before. -/
@[simp] def Step.Marks {α : Type} (base : Nat) : Step α → α → Prop
  | mark, count => base ≤ count
  | _, _ => True

namespace Rule

/-- Whatever its steps answer, a rule leaves so many trees to others, builds nodes without sides only, and ends with an
answer of the given sort. -/
def Plain {α : Type} : Rule α → Nat → (α → Prop) → Prop
  | done answer, _, ended => ended answer
  | step s rest, base, ended => ∀ answer, s.Marks base answer → (rest answer).Plain base ended
  | wrap kind start inner rest, base, ended =>
    base ≤ start ∧ kind.hasSides = false ∧ inner.Plain 0 (fun _ => True) ∧ rest.Plain base ended
  | call nonterminal rest, base, ended => nonterminal.goesOn = false ∧ rest.Plain base ended

variable {α β : Type} {base : Nat}

@[simp] theorem plain_pure (answer : α) (ended : α → Prop) : (pure answer : Rule α).Plain base ended ↔ ended answer :=
  Iff.rfl

@[simp] theorem plain_bind (rule : Rule α) (next : α → Rule β) (ended : β → Prop) :
    (rule >>= next).Plain base ended ↔ rule.Plain base fun answer => (next answer).Plain base ended := by
  rw [bind_eq]
  induction rule with
  | done answer => rfl
  | step s rest ih => exact forall_congr' fun answer => forall_congr' fun _ => ih answer next
  | wrap kind start inner rest _ ih =>
    exact and_congr_right fun _ => and_congr_right fun _ => and_congr_right fun _ => ih next
  | call nonterminal rest ih => exact and_congr_right fun _ => ih next

@[simp] theorem plain_map (f : α → β) (rule : Rule α) (ended : β → Prop) :
    (f <$> rule).Plain base ended ↔ rule.Plain base fun answer => ended (f answer) := plain_bind ..

@[simp] theorem plain_ite (condition : Prop) [Decidable condition] (left right : Rule α) (ended : α → Prop) :
    (if condition then left else right).Plain base ended
      ↔ if condition then left.Plain base ended else right.Plain base ended := by
  split <;> rfl

@[simp] theorem plain_ofStep (s : Step α) (ended : α → Prop) :
    (ofStep s).Plain base ended ↔ ∀ answer, s.Marks base answer → ended answer := Iff.rfl

@[simp] theorem plain_orM (left right : Rule Bool) (ended : Bool → Prop) :
    (left <||> right).Plain base ended
      ↔ left.Plain base fun answer => if answer then ended true else right.Plain base ended := by
  refine (plain_bind ..).trans (iff_of_eq ?_)
  congr
  funext answer
  cases answer <;> rfl

@[simp] theorem plain_andM (left right : Rule Bool) (ended : Bool → Prop) :
    (left <&&> right).Plain base ended
      ↔ left.Plain base fun answer => if answer then right.Plain base ended else ended false := by
  refine (plain_bind ..).trans (iff_of_eq ?_)
  congr
  funext answer
  cases answer <;> rfl

theorem Plain.mono {rule : Rule α} {ended weaker : α → Prop} (hplain : rule.Plain base ended)
    (hweaker : ∀ answer, ended answer → weaker answer) : rule.Plain base weaker := by
  induction rule with
  | done answer => exact hweaker answer hplain
  | step s rest ih => exact fun answer hmarks => ih answer (hplain answer hmarks) hweaker
  | wrap kind start inner rest _ ih => exact ⟨hplain.1, hplain.2.1, hplain.2.2.1, ih hplain.2.2.2 hweaker⟩
  | call nonterminal rest ih => exact ⟨hplain.1, ih hplain.2 hweaker⟩

end Rule

namespace Grammar

open Rule

variable {base : Nat}

/-! ### Small rules -/

@[simp] theorem plain_call (nonterminal : Nonterminal) (ended : Unit → Prop) :
    (call nonterminal).Plain base ended ↔ nonterminal.goesOn = false ∧ ended () := Iff.rfl

@[simp] theorem plain_node (kind : Kind) (inner : Rule Unit) (ended : Unit → Prop) :
    (node kind inner).Plain base ended ↔ kind.hasSides = false ∧ inner.Plain 0 (fun _ => True) ∧ ended () := by
  simp only [node, nodeFrom, plain_bind, plain_ofStep, Step.Marks, Plain]
  exact ⟨fun hall => (hall base (Nat.le_refl base)).2, fun hplain count hle => ⟨hle, hplain⟩⟩

@[simp] theorem plain_current : current.Plain base fun _ => True := by simp [current]

@[simp] theorem plain_currentSpan : currentSpan.Plain base fun _ => True := by simp [currentSpan]

@[simp] theorem plain_atEnd : atEnd.Plain base fun _ => True := by simp [atEnd]

@[simp] theorem plain_stopped : stopped.Plain base fun _ => True := by simp [stopped]

@[simp] theorem plain_advance : advance.Plain base fun _ => True := by simp [advance]

@[simp] theorem plain_currentIs (kind : Kind) : (currentIs kind).Plain base fun _ => True := by simp [currentIs]

@[simp] theorem plain_currentIn (set : TokenSet) : (currentIn set).Plain base fun _ => True := by simp [currentIn]

@[simp] theorem plain_eat (kind : Kind) : (eat kind).Plain base fun _ => True := by simp [eat]

@[simp] theorem plain_expect (kind : Kind) (what : String) : (expect kind what).Plain base fun _ => True := by
  simp [expect]

@[simp] theorem plain_reportHere (kind :
    DiagnosticKind) (detail : Option String) : (reportHere kind detail).Plain base fun _ => True := by
  simp [reportHere]

@[simp] theorem plain_openDelimiter (kind : Kind) : (openDelimiter kind).Plain base fun _ => True := by
  simp [openDelimiter]

@[simp] theorem plain_closeDelimiter (close : Kind) (construct : String) :
    (closeDelimiter close construct).Plain base fun _ => True := by
  rw [closeDelimiter, plain_bind, plain_ofStep]
  intro opener? _
  refine (plain_bind ..).mpr ((plain_eat close).mono fun closed _ => ?_)
  cases closed
  · refine (plain_bind ..).mpr (plain_atEnd.mono fun ended _ => ?_)
    split <;> simp
  · trivial

@[simp] theorem plain_abandon : abandon.Plain base fun _ => True := by simp [abandon]

@[simp] theorem plain_advanceAsError : advanceAsError.Plain base fun _ => True := by simp [advanceAsError]

@[simp] theorem plain_advanceGarbage : advanceGarbage.Plain base fun _ => True := by simp [advanceGarbage]

@[simp] theorem plain_skipUntil (recovery : TokenSet) : (skipUntil recovery).Plain base fun _ => True := by
  simp [skipUntil]

@[simp] theorem plain_recover (kind : DiagnosticKind) (detail : String) (recovery : TokenSet) :
    (recover kind detail recovery).Plain base fun _ => True := by
  simp [recover]

@[simp] theorem plain_skipToStatement : skipToStatement.Plain base fun _ => True := by simp [skipToStatement]

@[simp] theorem plain_recoverStatement : recoverStatement.Plain base fun _ => True := by simp [recoverStatement]

@[simp] theorem plain_expectTerminator (what : String) : (expectTerminator what).Plain base fun _ => True := by
  simp [expectTerminator]

@[simp] theorem plain_expectSemicolon (what : String) : (expectSemicolon what).Plain base fun _ => True := by
  rw [expectSemicolon, plain_bind]
  refine (plain_eat .semicolon).mono fun eaten _ => ?_
  cases eaten
  · refine (plain_bind ..).mpr fun token? _ => ?_
    cases token? <;> simp [Plain]
  · trivial

/-! ### Collections -/

@[simp] theorem plain_startsExpression : startsExpression.Plain base fun _ => True := by simp [startsExpression]

@[simp] theorem plain_startsExpressionOrTable : startsExpressionOrTable.Plain base fun _ => True := by
  simp [startsExpressionOrTable]

@[simp] theorem plain_startsStatement : startsStatement.Plain base fun _ => True := by simp [startsStatement]

@[simp] theorem plain_expression : expression.Plain base fun _ => True := by simp [expression]

@[simp] theorem plain_expressionOrTable : expressionOrTable.Plain base fun _ => True := by simp [expressionOrTable]

@[simp] theorem plain_literal (kind : Kind) : (literal kind).Plain base fun _ => True := by
  cases kind <;> simp [literal, literalNode?]

@[simp] theorem plain_negativeLiteral : negativeLiteral.Plain base fun _ => True := by
  rw [negativeLiteral, plain_bind, plain_ofStep]
  intro number _
  cases hfloat : number == .floatLit <;> simp

@[simp] theorem plain_array : array.Plain base fun _ => True := by simp [array]

@[simp] theorem plain_elements : elements.Plain base fun _ => True := by simp [elements]

@[simp] theorem plain_table : table.Plain base fun _ => True := by simp [table]

@[simp] theorem plain_constValue : constValue.Plain base fun _ => True := by
  refine (plain_bind ..).mpr (plain_current.mono fun kind _ => ?_)
  split <;> simp

@[simp] theorem plain_callArguments : callArguments.Plain base fun _ => True := by simp [callArguments]

@[simp] theorem plain_arguments : arguments.Plain base fun _ => True := by simp [arguments]

@[simp] theorem plain_parameters : parameters.Plain base fun _ => True := by simp [parameters]

@[simp] theorem plain_checkVariadics (count : Nat) (variadics : List (Nat × Span)) :
    (checkVariadics count variadics).Plain base fun _ => True := by
  induction variadics with
  | nil => trivial
  | cons variadic rest ih => simp [checkVariadics, ih]

@[simp] theorem plain_parameterList (variadics : List (Nat × Span)) (count : Nat) :
    (parameterList variadics count).Plain base fun _ => True := by
  rw [parameterList, plain_bind]
  have hends : (stopped <||> currentIs .parenClose).Plain base fun _ => True := by simp
  refine hends.mono fun ends _ => ?_
  cases ends
  · refine (plain_bind ..).mpr (plain_current.mono fun kind _ => ?_)
    split <;> simp
  · simp

/-! ### Definitions -/

@[simp] theorem plain_body (owner : String) : (body owner).Plain base fun _ => True := by simp [body]

@[simp] theorem plain_path (separator : Kind) : (path separator).Plain base fun _ => True := by simp [path]

@[simp] theorem plain_functionDeclaration : functionDeclaration.Plain base fun _ => True := by
  simp [functionDeclaration]

@[simp] theorem plain_attributes : attributes.Plain base fun _ => True := by simp [attributes]

@[simp] theorem plain_attributesGoOn : attributesGoOn.Plain base fun _ => True := by simp [attributesGoOn]

@[simp] theorem plain_attributeList : attributeList.Plain base fun _ => True := by simp [attributeList]

@[simp] theorem plain_optionalAttributes : optionalAttributes.Plain base fun _ => True := by simp [optionalAttributes]

@[simp] theorem plain_memberValue (isNamed : Bool) (what : String) :
    (memberValue isNamed what).Plain base fun _ => True := by
  simp [memberValue]

@[simp] theorem plain_classDeclaration : classDeclaration.Plain base fun _ => True := by simp [classDeclaration]

@[simp] theorem plain_enumEntries : enumEntries.Plain base fun _ => True := by simp [enumEntries]

@[simp] theorem plain_enumDeclaration : enumDeclaration.Plain base fun _ => True := by simp [enumDeclaration]

@[simp] theorem plain_constDeclaration : constDeclaration.Plain base fun _ => True := by simp [constDeclaration]

/-! ### Expressions -/

@[simp] theorem plain_parenthesized : parenthesized.Plain base fun _ => True := by simp [parenthesized]

@[simp] theorem plain_lambda : lambda.Plain base fun _ => True := by simp [lambda]

@[simp] theorem plain_anonymousFunction : anonymousFunction.Plain base fun _ => True := by simp [anonymousFunction]

@[simp] theorem plain_keywordOperand (kind : Kind) (ended : Unit → Prop) :
    (keywordOperand kind).Plain base ended ↔ kind.hasSides = false ∧ ended () := by
  simp [keywordOperand]

@[simp] theorem plain_prefixed : prefixed.Plain base fun _ => True := by simp [prefixed]

@[simp] theorem plain_tableOperand (allowed : Bool) : (tableOperand allowed).Plain base fun _ => True := by
  simp [tableOperand]

/-! ### Statements -/

@[simp] theorem plain_block : block.Plain base fun _ => True := by simp [block]

@[simp] theorem plain_blockStatements : blockStatements.Plain base fun _ => True := by simp [blockStatements]

@[simp] theorem plain_parenHeader (construct : String) : (parenHeader construct).Plain base fun _ => True := by
  simp [parenHeader]

@[simp] theorem plain_ifStatement : ifStatement.Plain base fun _ => True := by simp [ifStatement]

@[simp] theorem plain_whileStatement : whileStatement.Plain base fun _ => True := by simp [whileStatement]

@[simp] theorem plain_doWhileStatement : doWhileStatement.Plain base fun _ => True := by simp [doWhileStatement]

@[simp] theorem plain_openHeader (statement : String) : (openHeader statement).Plain base fun _ => True := by
  simp [openHeader]

@[simp] theorem plain_closeHeader (opened : Bool) (construct : String) :
    (closeHeader opened construct).Plain base fun _ => True := by
  simp [closeHeader]

@[simp] theorem plain_optionalExpression : optionalExpression.Plain base fun _ => True := by simp [optionalExpression]

@[simp] theorem plain_localBindings : localBindings.Plain base fun _ => True := by simp [localBindings]

@[simp] theorem plain_localDeclaration (isStatement : Bool) :
    (localDeclaration isStatement).Plain base fun _ => True := by
  simp [localDeclaration]

@[simp] theorem plain_forStatement : forStatement.Plain base fun _ => True := by simp [forStatement]

@[simp] theorem plain_foreachStatement : foreachStatement.Plain base fun _ => True := by simp [foreachStatement]

@[simp] theorem plain_caseStatements : caseStatements.Plain base fun _ => True := by simp [caseStatements]

@[simp] theorem plain_caseClause : caseClause.Plain base fun _ => True := by simp [caseClause]

@[simp] theorem plain_defaultClause : defaultClause.Plain base fun _ => True := by simp [defaultClause]

@[simp] theorem plain_switchClauses (seenDefault : Bool) : (switchClauses seenDefault).Plain base fun _ => True := by
  rw [switchClauses, plain_bind]
  refine plain_stopped.mono fun halted _ => ?_
  cases halted
  · refine (plain_bind ..).mpr (plain_current.mono fun kind _ => ?_)
    split <;> simp
  · trivial

@[simp] theorem plain_switchStatement : switchStatement.Plain base fun _ => True := by simp [switchStatement]

@[simp] theorem plain_jumpStatement (kind : Kind) (keyword : String) (ended : Unit → Prop) :
    (jumpStatement kind keyword).Plain base ended ↔ kind.hasSides = false ∧ ended () := by
  simp [jumpStatement]

@[simp] theorem plain_returnStatement : returnStatement.Plain base fun _ => True := by simp [returnStatement]

@[simp] theorem plain_yieldStatement : yieldStatement.Plain base fun _ => True := by simp [yieldStatement]

@[simp] theorem plain_throwStatement : throwStatement.Plain base fun _ => True := by simp [throwStatement]

@[simp] theorem plain_varStatement : varStatement.Plain base fun _ => True := by simp [varStatement]

@[simp] theorem plain_tryStatement : tryStatement.Plain base fun _ => True := by simp [tryStatement]

@[simp] theorem plain_expressionStatement : expressionStatement.Plain base fun _ => True := by
  simp [expressionStatement]

@[simp] theorem plain_knownStatement : knownStatement.Plain base fun _ => True := by
  refine (plain_bind ..).mpr (plain_current.mono fun kind _ => ?_)
  split <;> simp

@[simp] theorem plain_statement : statement.Plain base fun _ => True := by simp [statement]

@[simp] theorem plain_script : script.Plain base fun _ => True := by simp [script]

end Grammar

end Squirrel

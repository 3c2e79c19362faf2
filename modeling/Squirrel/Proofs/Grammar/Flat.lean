import Squirrel.Proofs.Parse.Builder

/-!
# The routines are the flat rules

Every routine opens and closes its nodes where the rule of the same name has them, also where it returns early. A rule that
opens no node is taken as it is.
-/

namespace Squirrel

namespace Grammar

open Rule

attribute [local simp] liftM_bind liftM_pure

/-! ### Rules without nodes -/

@[simp] theorem flat_call (nonterminal : Nonterminal) : (call nonterminal).flat = liftM (call nonterminal) := rfl

@[simp] theorem flat_current : current.flat = liftM current := rfl

@[simp] theorem flat_currentSpan : currentSpan.flat = liftM currentSpan := rfl

@[simp] theorem flat_atEnd : atEnd.flat = liftM atEnd := rfl

@[simp] theorem flat_stopped : stopped.flat = liftM stopped := rfl

@[simp] theorem flat_advance : advance.flat = liftM advance := rfl

@[simp] theorem flat_currentIs (kind : Kind) : (currentIs kind).flat = liftM (currentIs kind) := by simp [currentIs]

@[simp] theorem flat_currentIn (set : TokenSet) : (currentIn set).flat = liftM (currentIn set) := by simp [currentIn]

@[simp] theorem flat_eat (kind : Kind) : (eat kind).flat = liftM (eat kind) := by simp [eat]

@[simp] theorem flat_expect (kind : Kind) (what : String) : (expect kind what).flat = liftM (expect kind what) := by
  simp [expect]

@[simp] theorem flat_reportHere (kind : DiagnosticKind) (detail : Option String) :
    (reportHere kind detail).flat = liftM (reportHere kind detail) := by
  simp [reportHere]

@[simp] theorem flat_openDelimiter (kind : Kind) : (openDelimiter kind).flat = liftM (openDelimiter kind) := by
  simp [openDelimiter]

@[simp] theorem flat_closeDelimiter (close : Kind) (construct : String) :
    (closeDelimiter close construct).flat = liftM (closeDelimiter close construct) := by
  simp only [closeDelimiter, flat_bind, liftM_bind, flat_ofStep, flat_eat, flat_ite, Routine.lift_ite, flat_pure, liftM_pure,
    flat_atEnd]
  refine congrArg _ (funext fun opener? => congrArg _ (funext fun closed => ?_))
  refine ite_congr rfl (fun _ => rfl) fun _ => congrArg _ (funext fun ended => ?_)
  split <;> simp

@[simp] theorem flat_expectTerminator (after : String) :
    (expectTerminator after).flat = liftM (expectTerminator after) := by
  simp [expectTerminator]

@[simp] theorem flat_expectSemicolon (after : String) : (expectSemicolon after).flat = liftM (expectSemicolon after) := by
  simp only [expectSemicolon, flat_bind, liftM_bind, flat_ofStep, flat_eat, flat_ite, Routine.lift_ite, flat_pure, liftM_pure]
  refine congrArg _ (funext fun eaten => ite_congr rfl (fun _ => rfl) fun _ => congrArg _ (funext fun token? => ?_))
  cases token? <;> simp

@[simp] theorem flat_expression : expression.flat = liftM expression := rfl

@[simp] theorem flat_expressionOrTable : expressionOrTable.flat = liftM expressionOrTable := rfl

@[simp] theorem flat_startsExpression : startsExpression.flat = liftM startsExpression := by simp [startsExpression]

@[simp] theorem flat_startsExpressionOrTable : startsExpressionOrTable.flat = liftM startsExpressionOrTable := by
  simp [startsExpressionOrTable]

@[simp] theorem flat_checkVariadics (count : Nat) (variadics : List (Nat × Span)) :
    (checkVariadics count variadics).flat = liftM (checkVariadics count variadics) := by
  induction variadics with
  | nil => rfl
  | cons variadic rest ih => simp [checkVariadics, ih]

@[simp] theorem flat_startsStatement : startsStatement.flat = liftM startsStatement := by simp [startsStatement]

@[simp] theorem flat_body (owner : String) : (body owner).flat = liftM (body owner) := by simp [body]

@[simp] theorem flat_attributesGoOn : attributesGoOn.flat = liftM attributesGoOn := by simp [attributesGoOn]

@[simp] theorem flat_memberValue (isNamed : Bool) (what : String) :
    (memberValue isNamed what).flat = liftM (memberValue isNamed what) := by
  simp [memberValue]

@[simp] theorem flat_parenHeader (construct : String) : (parenHeader construct).flat = liftM (parenHeader construct) := by
  simp [parenHeader]

@[simp] theorem flat_openHeader (statement : String) : (openHeader statement).flat = liftM (openHeader statement) := by
  simp [openHeader]

@[simp] theorem flat_closeHeader (opened : Bool) (construct : String) :
    (closeHeader opened construct).flat = liftM (closeHeader opened construct) := by
  simp [closeHeader]

@[simp] theorem flat_optionalExpression : optionalExpression.flat = liftM optionalExpression := by simp [optionalExpression]

/-! ### Skipping -/

@[simp] theorem flat_nodeFrom (start : Nat) (kind : Kind) (inner : Rule Unit) : (nodeFrom start kind inner).flat = (do
    Build.startNodeAt start kind
    inner.flat
    Build.finishNode) := rfl

@[simp] theorem flat_node (kind : Kind) (inner : Rule Unit) : (node kind inner).flat = (do
    Build.startNode kind
    inner.flat
    Build.finishNode) := rfl

@[simp] theorem flat_advanceAsError : advanceAsError.flat = Build.advanceAsError := by
  simp [advanceAsError, Build.advanceAsError]

@[simp] theorem flat_advanceGarbage : advanceGarbage.flat = Build.advanceGarbage := by
  simp [advanceGarbage, Build.advanceGarbage]

@[simp] theorem flat_recover (kind : DiagnosticKind) (detail : String) (recovery : TokenSet) :
    (recover kind detail recovery).flat = Build.recover kind detail recovery := by
  simp [recover, Build.recover]

@[simp] theorem flat_recoverStatement : recoverStatement.flat = Build.recoverStatement := by
  simp [recoverStatement, Build.recoverStatement]

@[simp] theorem flat_abandon : abandon.flat = Build.abandon := by simp [abandon, Build.abandon]

/-! ### Collections -/

@[simp] theorem flat_literal (kind : Kind) : (literal kind).flat = Build.literal kind := by
  rw [literal, Build.literal]
  cases literalNode? kind <;> simp

@[simp] theorem flat_negativeLiteral : negativeLiteral.flat = Build.negativeLiteral := by
  simp [negativeLiteral, Build.negativeLiteral]

@[simp] theorem flat_array : array.flat = Build.array := by simp [array, Build.array]

theorem flat_elements : elements.flat = Build.elements := by simp [elements, Build.elements]

@[simp] theorem flat_table : table.flat = Build.table := by simp [table, Build.table]

@[simp] theorem flat_constValue : constValue.flat = Build.constValue := by
  simp only [constValue, Build.constValue, flat_bind, flat_current]
  refine congrArg _ (funext fun kind => ?_)
  split <;> simp

@[simp] theorem flat_callArguments : callArguments.flat = Build.callArguments := by
  simp [callArguments, Build.callArguments]

theorem flat_arguments : arguments.flat = Build.arguments := by simp [arguments, Build.arguments]

@[simp] theorem flat_parameters : parameters.flat = Build.parameters := by simp [parameters, Build.parameters]

theorem flat_parameterList (variadics : List (Nat × Span)) (count : Nat) :
    (parameterList variadics count).flat = Build.parameterList variadics count := by
  simp only [parameterList, Build.parameterList, flat_bind, flat_current, flat_orM, flat_stopped, flat_currentIs, flat_ite,
    flat_checkVariadics]
  refine congrArg _ (funext fun ends => ite_congr rfl (fun _ => bind_pure_unit.symm) fun _ => ?_)
  refine congrArg _ (funext fun kind => ?_)
  split <;> simp

/-! ### Definitions -/

@[simp] theorem flat_functionDeclaration : functionDeclaration.flat = Build.functionDeclaration := by
  simp [functionDeclaration, Build.functionDeclaration]

@[simp] theorem flat_attributes : attributes.flat = Build.attributes := by simp [attributes, Build.attributes]

theorem flat_attributeList : attributeList.flat = Build.attributeList := by simp [attributeList, Build.attributeList]

@[simp] theorem flat_optionalAttributes : optionalAttributes.flat = Build.optionalAttributes := by
  simp [optionalAttributes, Build.optionalAttributes]

@[simp] theorem flat_member : member.flat = Build.member := by
  simp only [member, Build.member, flat_node, flat_bind, flat_current, flat_optionalAttributes, bind_assoc]
  refine congrArg _ (funext fun _ => congrArg _ (funext fun _ => congrArg _ (funext fun kind => ?_)))
  split <;> simp

theorem flat_members : members.flat = Build.members := by simp [members, Build.members]

@[simp] theorem flat_classDeclaration : classDeclaration.flat = Build.classDeclaration := by
  simp [classDeclaration, Build.classDeclaration]

theorem flat_enumEntries : enumEntries.flat = Build.enumEntries := by simp [enumEntries, Build.enumEntries]

@[simp] theorem flat_enumDeclaration : enumDeclaration.flat = Build.enumDeclaration := by
  simp [enumDeclaration, Build.enumDeclaration]

@[simp] theorem flat_constDeclaration : constDeclaration.flat = Build.constDeclaration := by
  simp [constDeclaration, Build.constDeclaration]

/-! ### Expressions -/

@[simp] theorem flat_parenthesized : parenthesized.flat = Build.parenthesized := by
  simp [parenthesized, Build.parenthesized]

@[simp] theorem flat_lambda : lambda.flat = Build.lambda := by simp [lambda, Build.lambda]

@[simp] theorem flat_anonymousFunction : anonymousFunction.flat = Build.anonymousFunction := by
  simp [anonymousFunction, Build.anonymousFunction]

@[simp] theorem flat_keywordOperand (kind : Kind) : (keywordOperand kind).flat = Build.keywordOperand kind := by
  simp [keywordOperand, Build.keywordOperand]

@[simp] theorem flat_prefixed : prefixed.flat = Build.prefixed := by simp [prefixed, Build.prefixed]

@[simp] theorem flat_tableOperand (allowed : Bool) : (tableOperand allowed).flat = Build.tableOperand allowed := by
  simp [tableOperand, Build.tableOperand]

@[simp] theorem flat_operand (tableAllowed : Bool) : (operand tableAllowed).flat = Build.operand tableAllowed := by
  simp only [operand, Build.operand, flat_bind, flat_current]
  refine congrArg _ (funext fun kind => ?_)
  split <;> simp

@[simp] theorem flat_suffix (start : Nat) (found : Suffix) :
    (nodeFrom start found.node (suffix found)).flat = Build.suffix start found := by
  cases found <;> simp [suffix, Build.suffix, Suffix.node]

theorem flat_operators (start power : Nat) : (operators start power).flat = Build.operators start power := by
  simp only [operators, Build.operators, flat_bind, flat_current, flat_stopped, flat_ofStep, flat_ite, flat_pure]
  refine congrArg _ (funext fun halted => ite_congr rfl (fun _ => rfl) fun _ => ?_)
  refine congrArg _ (funext fun kind => congrArg _ (funext fun afterLineBreak => ?_))
  cases Suffix.of? power afterLineBreak kind with
  | none => rfl
  | some found => exact (flat_bind ..).trans (by rw [flat_suffix, flat_call])

theorem flat_expressionOf (power : Nat) (tableAllowed : Bool) :
    (expressionOf power tableAllowed).flat = Build.expressionOf power tableAllowed := by
  simp [expressionOf, Build.expressionOf]

@[simp] theorem flat_slot : slot.flat = Build.slot := by simp [slot, Build.slot]

theorem flat_slots : slots.flat = Build.slots := by simp [slots, Build.slots]

/-! ### Statements -/

@[simp] theorem flat_block : block.flat = Build.block := by simp [block, Build.block]

@[simp] theorem flat_ifStatement : ifStatement.flat = Build.ifStatement := by simp [ifStatement, Build.ifStatement]

@[simp] theorem flat_whileStatement : whileStatement.flat = Build.whileStatement := by
  simp [whileStatement, Build.whileStatement]

@[simp] theorem flat_doWhileStatement : doWhileStatement.flat = Build.doWhileStatement := by
  simp [doWhileStatement, Build.doWhileStatement]

theorem flat_localBindings : localBindings.flat = Build.localBindings := by simp [localBindings, Build.localBindings]

@[simp] theorem flat_localDeclaration (isStatement : Bool) :
    (localDeclaration isStatement).flat = Build.localDeclaration isStatement := by
  simp [localDeclaration, Build.localDeclaration]

@[simp] theorem flat_forStatement : forStatement.flat = Build.forStatement := by simp [forStatement, Build.forStatement]

@[simp] theorem flat_foreachStatement : foreachStatement.flat = Build.foreachStatement := by
  simp [foreachStatement, Build.foreachStatement]

@[simp] theorem flat_caseClause : caseClause.flat = Build.caseClause := by simp [caseClause, Build.caseClause]

@[simp] theorem flat_defaultClause : defaultClause.flat = Build.defaultClause := by
  simp [defaultClause, Build.defaultClause]

theorem flat_switchClauses (seenDefault : Bool) : (switchClauses seenDefault).flat = Build.switchClauses seenDefault := by
  simp only [switchClauses, Build.switchClauses, flat_bind, flat_current, flat_stopped, flat_ite, flat_pure]
  refine congrArg _ (funext fun halted => ite_congr rfl (fun _ => rfl) fun _ => congrArg _ (funext fun kind => ?_))
  split <;> simp

@[simp] theorem flat_switchStatement : switchStatement.flat = Build.switchStatement := by
  simp [switchStatement, Build.switchStatement]

@[simp] theorem flat_jumpStatement (kind : Kind) (keyword : String) :
    (jumpStatement kind keyword).flat = Build.jumpStatement kind keyword := by
  simp [jumpStatement, Build.jumpStatement]

@[simp] theorem flat_returnStatement : returnStatement.flat = Build.returnStatement := by
  simp [returnStatement, Build.returnStatement]

@[simp] theorem flat_yieldStatement : yieldStatement.flat = Build.yieldStatement := by
  simp [yieldStatement, Build.yieldStatement]

@[simp] theorem flat_throwStatement : throwStatement.flat = Build.throwStatement := by
  simp [throwStatement, Build.throwStatement]

@[simp] theorem flat_varStatement : varStatement.flat = Build.varStatement := by simp [varStatement, Build.varStatement]

@[simp] theorem flat_tryStatement : tryStatement.flat = Build.tryStatement := by simp [tryStatement, Build.tryStatement]

@[simp] theorem flat_expressionStatement : expressionStatement.flat = Build.expressionStatement := by
  simp [expressionStatement, Build.expressionStatement]

@[simp] theorem flat_knownStatement : knownStatement.flat = Build.knownStatement := by
  simp only [knownStatement, Build.knownStatement, flat_bind, flat_current]
  refine congrArg _ (funext fun kind => ?_)
  split <;> simp

theorem flat_statement : statement.flat = Build.statement := by simp [statement, Build.statement]

theorem flat_script : script.flat = Build.script := by simp [script, Build.script]

theorem flat_skipUntil (recovery : TokenSet) : (skipUntil recovery).flat = liftM (skipUntil recovery) := by
  simp [skipUntil]

theorem flat_skipToStatement : skipToStatement.flat = liftM skipToStatement := by simp [skipToStatement]

theorem flat_blockStatements : blockStatements.flat = liftM blockStatements := by simp [blockStatements]

theorem flat_caseStatements : caseStatements.flat = liftM caseStatements := by simp [caseStatements]

theorem flat_path (separator : Kind) : (path separator).flat = liftM (path separator) := by simp [path]

/-- The routine of every nonterminal is its rule made flat. -/
theorem flat_ruleOf (nonterminal : Nonterminal) : (ruleOf nonterminal).flat = Build.routineOf nonterminal := by
  cases nonterminal with
  | script => exact flat_script
  | statement => exact flat_statement
  | blockStatements => exact flat_blockStatements
  | caseStatements => exact flat_caseStatements
  | switchClauses seenDefault => exact flat_switchClauses seenDefault
  | localBindings => exact flat_localBindings
  | expression power tableAllowed => exact flat_expressionOf power tableAllowed
  | operators start power => exact flat_operators start power
  | arguments => exact flat_arguments
  | elements => exact flat_elements
  | slots => exact flat_slots
  | parameterList variadics count => exact flat_parameterList variadics count
  | path separator => exact flat_path separator
  | members => exact flat_members
  | enumEntries => exact flat_enumEntries
  | attributeList => exact flat_attributeList
  | skipUntil recovery => exact flat_skipUntil recovery
  | skipToStatement => exact flat_skipToStatement

end Grammar

/-! ### Nonterminals -/

theorem Nonterminal.run_succ (bound : Nat) (nonterminal : Nonterminal) (state : State) :
    (nonterminal.run (bound + 1) state).map ((), ·)
      = Rule.exec (run bound) (Grammar.ruleOf nonterminal) state := by
  rw [run]
  cases Rule.exec (run bound) (Grammar.ruleOf nonterminal) state <;> rfl

theorem Nonterminal.build_succ (bound : Nat) (nonterminal : Nonterminal) (site : Site) :
    nonterminal.build (bound + 1) site = (Grammar.ruleOf nonterminal).flat.build (build bound) site := by
  rw [build, Grammar.flat_ruleOf]

theorem Nonterminal.builtAs_build (bound : Nat) (nonterminal : Nonterminal) (site : Site) :
    BuiltAs site.nodes ((nonterminal.run bound site.state).map ((), ·)) (nonterminal.build bound site) := by
  induction bound generalizing nonterminal site with
  | zero => rfl
  | succ bound ih =>
    rw [run_succ, build_succ]
    exact Rule.builtAs_flat ih (Grammar.ruleOf nonterminal) site

end Squirrel

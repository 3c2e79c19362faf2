import Squirrel.Proofs.Grammar.Progress
import Squirrel.Proofs.Parse.Balance

/-!
# The grammar is balanced

Every production closes the delimiters that it opens and comes up from where it has gone down, on each of its ways to the
end. Where a delimiter is opened under a condition, as in the header of a loop, the same condition closes it. So a production
that ends finds the stack of open nodes, the openers that wait and the depth of nesting as they were, and a parse builds one
script.
-/

namespace Squirrel

/-- The steps that open and close nothing. -/
def Step.isNeutral {α : Type} : Step α → Bool
  | .pushOpener _ | .popOpener | .descend | .ascend => false
  | _ => true

namespace Grammar

open Rule

variable {strict : Prop}

/-! ### Small rules -/

theorem steady_ofStep {α : Type} {s : Step α} (hneutral : s.isNeutral = true) : (ofStep s).Steady strict := by
  intro rest sure
  cases s with
  | pushOpener | popOpener | descend | ascend => cases hneutral
  | mark => exact ⟨trivial, fun _ hsure => ⟨rfl, hsure⟩⟩
  | _ => exact ⟨trivial, fun _ _ => ⟨rfl, Nat.le_refl _⟩⟩

@[grind .] theorem steady_current : current.Steady strict := steady_ofStep rfl

@[grind .] theorem steady_currentSpan : currentSpan.Steady strict := steady_ofStep rfl

@[grind .] theorem steady_atEnd : atEnd.Steady strict := steady_ofStep rfl

@[grind .] theorem steady_stopped : stopped.Steady strict := steady_ofStep rfl

@[grind .] theorem steady_advance : advance.Steady strict := steady_ofStep rfl

@[grind .] theorem steady_adjacent : (ofStep .adjacent).Steady strict := steady_ofStep rfl

@[grind .] theorem steady_next : (ofStep .next).Steady strict := steady_ofStep rfl

@[grind .] theorem steady_previous : (ofStep .previous).Steady strict := steady_ofStep rfl

@[grind .] theorem steady_afterLineBreak : (ofStep .afterLineBreak).Steady strict := steady_ofStep rfl

@[grind .] theorem steady_numberFollows : (ofStep .numberFollows).Steady strict := steady_ofStep rfl

@[grind .] theorem steady_report (diagnostic : Diagnostic) : (ofStep (.report diagnostic)).Steady strict :=
  steady_ofStep rfl

@[grind .] theorem steady_reportOnce (offset : Nat) (diagnostic : Diagnostic) :
    (ofStep (.reportOnce offset diagnostic)).Steady strict := steady_ofStep rfl

/-- A node stands behind the trees that have been placed before. -/
@[grind ←] theorem steady_node {kind : Kind} {inner : Rule Unit} (hinner : inner.Steady strict) :
    (node kind inner).Steady strict := by
  refine fun rest sure => ⟨trivial, fun start hstart => ⟨fun _ => Nat.le_refl start, ?_⟩⟩
  exact (hinner rest 0).mono fun _ after hafter => ⟨hafter.1, Nat.le_succ_of_le hstart⟩

/-- Only the operators go back to a mark of another rule. -/
@[grind ←] theorem steady_call {nonterminal : Nonterminal} (hmark : nonterminal.mark? = none) :
    (call nonterminal).Steady strict := by
  refine fun rest sure => ⟨fun _ start hstart => ?_, rfl, ?_⟩
  · rw [hmark] at hstart
    cases hstart
  · show sure ≤ nonterminal.sureAfter sure
    rw [Nonterminal.sureAfter, hmark]
    exact Nat.le_refl sure

@[grind .] theorem steady_currentIs (kind : Kind) : (currentIs kind).Steady strict := by grind [currentIs]

@[grind .] theorem steady_currentIn (set : TokenSet) : (currentIn set).Steady strict := by grind [currentIn]

@[grind .] theorem steady_eat (kind : Kind) : (eat kind).Steady strict := by grind [eat]

@[grind .] theorem steady_expect (kind : Kind) (what : String) : (expect kind what).Steady strict := by grind [expect]

@[grind .] theorem steady_reportHere (kind : DiagnosticKind) (detail : Option String) :
    (reportHere kind detail).Steady strict := by
  grind [reportHere]

/-! ### Skipping -/

@[grind .] theorem steady_abandon : abandon.Steady strict := by grind [abandon]

@[grind .] theorem steady_advanceAsError : advanceAsError.Steady strict := by grind [advanceAsError]

@[grind .] theorem steady_advanceGarbage : advanceGarbage.Steady strict := by grind [advanceGarbage]

@[grind .] theorem steady_skipUntil (recovery : TokenSet) : (skipUntil recovery).Steady strict := by grind [skipUntil]

@[grind .] theorem steady_recover (kind : DiagnosticKind) (detail : String) (recovery : TokenSet) :
    (recover kind detail recovery).Steady strict := by
  grind [recover]

@[grind .] theorem steady_skipToStatement : skipToStatement.Steady strict := by grind [skipToStatement]

@[grind .] theorem steady_recoverStatement : recoverStatement.Steady strict := by grind [recoverStatement]

/-! ### Delimiters -/

theorem trades_openDelimiter (kind : Kind) : (openDelimiter kind).Trades strict .none fun _ => .opener := by
  refine Trades.bind steady_currentSpan fun span => ?_
  exact fun rest sure => ⟨trivial, fun _ _ => ⟨trivial, fun _ _ => ⟨rfl, Nat.le_refl _⟩⟩⟩

theorem trades_popOpener : (ofStep .popOpener).Trades strict .opener fun _ => .none :=
  fun _ _ => ⟨Nat.succ_pos _, fun _ _ => ⟨rfl, Nat.le_refl _⟩⟩

theorem trades_closeDelimiter (close : Kind) (construct : String) :
    (closeDelimiter close construct).Trades strict .opener fun _ => .none :=
  trades_popOpener.bind fun opener? => show Steady strict _ by grind

/-- What stands between an opener and its closer. -/
theorem steady_delimitedThen {α : Type} {opener close : Kind} {construct : String} {inner : Rule α}
    {next : Unit → Rule Unit} (hinner : inner.Steady strict) (hnext : ∀ answer, (next answer).Steady strict) :
    (openDelimiter opener >>= fun _ => inner >>= fun _ => closeDelimiter close construct >>= next).Steady strict :=
  (trades_openDelimiter opener).bind fun _ => (hinner.trades .opener).bind fun _ =>
    (trades_closeDelimiter close construct).bind hnext

theorem steady_delimited {α : Type} {opener close : Kind} {construct : String} {inner : Rule α}
    (hinner : inner.Steady strict) :
    (openDelimiter opener >>= fun _ => inner >>= fun _ => closeDelimiter close construct).Steady strict :=
  (trades_openDelimiter opener).bind fun _ => (hinner.trades .opener).bind fun _ => trades_closeDelimiter close construct

/-! ### Ends of statements -/

@[grind .] theorem steady_expectTerminator (what : String) : (expectTerminator what).Steady strict := by
  have hends : (eat .semicolon <||> atEnd <||> currentIs .braceClose <||> ofStep .afterLineBreak).Steady strict := by grind
  grind [expectTerminator]

@[grind .] theorem steady_expectSemicolon (what : String) : (expectSemicolon what).Steady strict := by
  grind [expectSemicolon]

/-! ### Collections -/

@[grind .] theorem steady_expression : expression.Steady strict := by grind [expression]

@[grind .] theorem steady_expressionOrTable : expressionOrTable.Steady strict := by grind [expressionOrTable]

@[grind .] theorem steady_startsExpression : startsExpression.Steady strict := steady_currentIn _

@[grind .] theorem steady_startsExpressionOrTable : startsExpressionOrTable.Steady strict := by
  grind [startsExpressionOrTable]

@[grind .] theorem steady_literal (kind : Kind) : (literal kind).Steady strict := by grind [literal]

@[grind .] theorem steady_negativeLiteral : negativeLiteral.Steady strict := by grind [negativeLiteral]

@[grind .] theorem steady_array : array.Steady strict := steady_node (steady_delimited (by grind))

@[grind .] theorem steady_elements : elements.Steady strict := by grind [elements]

@[grind .] theorem steady_table : table.Steady strict := steady_node (steady_delimited (by grind))

@[grind .] theorem steady_constValue : constValue.Steady strict := by
  refine steady_bind steady_current fun kind => ?_
  split <;> grind

@[grind .] theorem steady_callArguments : callArguments.Steady strict := by
  refine steady_node (steady_bind (steady_currentIs _) fun opens => ?_)
  split
  · exact steady_delimited (by grind)
  · grind

@[grind .] theorem steady_arguments : arguments.Steady strict := by grind [arguments]

@[grind .] theorem steady_parameters : parameters.Steady strict := by
  refine steady_node (steady_bind (steady_currentIs _) fun opens => ?_)
  split
  · exact steady_delimited (by grind)
  · grind

@[grind .] theorem steady_checkVariadics (count : Nat) (variadics : List (Nat × Span)) :
    (checkVariadics count variadics).Steady strict := by
  induction variadics with
  | nil => exact steady_pure ()
  | cons variadic rest ih => grind [checkVariadics]

@[grind .] theorem steady_parameterList (variadics : List (Nat × Span)) (count : Nat) :
    (parameterList variadics count).Steady strict := by
  have hvalue : (node .parameter do
      advance
      if ← eat .equals then constValue).Steady strict := steady_node (by grind)
  refine steady_bind (by grind) fun ends => ?_
  split
  · exact steady_checkVariadics _ _
  · refine steady_bind steady_current fun kind => ?_
    split <;> grind

/-! ### Definitions -/

@[grind .] theorem steady_startsStatement : startsStatement.Steady strict := steady_currentIn _

@[grind .] theorem steady_body (owner : String) : (body owner).Steady strict := by grind [body]

@[grind .] theorem steady_path (separator : Kind) : (path separator).Steady strict := by grind [path]

@[grind .] theorem steady_functionDeclaration : functionDeclaration.Steady strict := by
  refine steady_node (steady_bind steady_advance fun _ => steady_bind (steady_expect _ _) fun named => ?_)
  exact steady_ifThen (steady_call rfl) (by grind)

@[grind .] theorem steady_attributes : attributes.Steady strict := steady_node (steady_delimited (by grind))

@[grind .] theorem steady_attributesGoOn : attributesGoOn.Steady strict := by grind [attributesGoOn]

@[grind .] theorem steady_attributeList : attributeList.Steady strict := by
  have hentry : (node .attributeEntry do
      advance
      if ← expect .equals "`=` after attribute name" then constValue).Steady strict := steady_node (by grind)
  grind [attributeList]

@[grind .] theorem steady_optionalAttributes : optionalAttributes.Steady strict := by grind [optionalAttributes]

@[grind .] theorem steady_memberValue (isNamed : Bool) (what : String) : (memberValue isNamed what).Steady strict := by
  grind [memberValue]

@[grind .] theorem steady_member : member.Steady strict := by
  refine steady_node (steady_bind steady_optionalAttributes fun _ => steady_bind steady_current fun kind => ?_)
  split
  case h_3 => exact steady_delimitedThen steady_expression fun _ => steady_memberValue _ _
  all_goals grind

@[grind .] theorem steady_members : members.Steady strict := by grind [members]

@[grind .] theorem steady_classDeclaration : classDeclaration.Steady strict := by
  refine steady_node (steady_bind steady_advance fun _ => steady_bind (steady_expect _ _) fun named => ?_)
  refine steady_ifThen (steady_call rfl) (steady_bind (steady_eat _) fun extends? => ?_)
  refine steady_ifThen (steady_expect _ _) (steady_bind steady_optionalAttributes fun _ => ?_)
  refine steady_bind (steady_currentIs _) fun opens => ?_
  split
  · exact steady_delimited (by grind)
  · grind

@[grind .] theorem steady_enumEntries : enumEntries.Steady strict := by
  have hentry : (node .enumEntry do
      advance
      if ← eat .equals then constValue).Steady strict := steady_node (by grind)
  grind [enumEntries]

@[grind .] theorem steady_enumDeclaration : enumDeclaration.Steady strict := by
  refine steady_node (steady_bind steady_advance fun _ => steady_bind (steady_expect _ _) fun named => ?_)
  refine steady_bind steady_optionalAttributes fun _ => steady_bind (steady_currentIs _) fun opens => ?_
  split
  · exact steady_delimitedThen (by grind) (by grind)
  · grind

@[grind .] theorem steady_constDeclaration : constDeclaration.Steady strict := by
  refine steady_node (steady_bind steady_advance fun _ => steady_bind (steady_expect _ _) fun named => ?_)
  grind

/-! ### Operands and slots -/

@[grind .] theorem steady_parenthesized : parenthesized.Steady strict :=
  steady_node (steady_delimited steady_expression)

@[grind .] theorem steady_lambda : lambda.Steady strict := by grind [lambda]

@[grind .] theorem steady_anonymousFunction : anonymousFunction.Steady strict := by grind [anonymousFunction]

@[grind .] theorem steady_keywordOperand (kind : Kind) : (keywordOperand kind).Steady strict := by
  grind [keywordOperand]

@[grind .] theorem steady_prefixed : prefixed.Steady strict := by grind [prefixed]

@[grind .] theorem steady_tableOperand (allowed : Bool) : (tableOperand allowed).Steady strict := by
  grind [tableOperand]

@[grind .] theorem steady_operand (tableAllowed : Bool) : (operand tableAllowed).Steady strict := by
  have hglobal : (node .globalVariable do
      advance
      let _ ← expect .id "identifier after `::`").Steady strict := steady_node (by grind)
  have hrawcall : (node .callExpression do
      advance
      callArguments).Steady strict := steady_node (by grind)
  refine steady_bind steady_current fun kind => ?_
  split <;> grind

@[grind .] theorem steady_suffix (found : Suffix) : (suffix found).Steady strict := by
  cases found with
  | index => exact steady_delimited steady_expression
  | _ => grind [suffix]

@[grind .] theorem steady_slot : slot.Steady strict := by
  have hvalue (separator : Kind) (what : String) :
      (expect separator what >>= fun found => if found = true then expressionOrTable else pure ()).Steady strict := by
    grind
  refine steady_node (steady_bind steady_current fun kind => steady_bind steady_next fun next => ?_)
  split
  · grind
  · split
    · exact steady_delimitedThen steady_expression fun _ => hvalue _ _
    · grind

@[grind .] theorem steady_slots : slots.Steady strict := by grind [slots]

/-! ### Statements -/

@[grind .] theorem steady_block : block.Steady strict := steady_node (steady_delimited (by grind))

@[grind .] theorem steady_blockStatements : blockStatements.Steady strict := by grind [blockStatements]

@[grind .] theorem steady_parenHeader (construct : String) : (parenHeader construct).Steady strict := by
  refine steady_bind (steady_currentIs _) fun opens => ?_
  split
  · exact steady_delimited steady_expression
  · grind

@[grind .] theorem steady_ifStatement : ifStatement.Steady strict := by
  have hrest : (body "`if` branch" >>= fun _ => currentIs .kwElse >>= fun follows => if follows = true then
      node .elseStatement do
        advance
        body "`else` branch"
    else pure ()).Steady strict := by grind
  refine steady_node (steady_bind steady_advance fun _ => steady_bind (steady_currentIs _) fun opens => ?_)
  split
  · exact steady_bind steady_parenthesized fun _ => hrest
  · exact steady_bind (steady_expect _ _) fun _ => hrest

@[grind .] theorem steady_whileStatement : whileStatement.Steady strict := by grind [whileStatement]

@[grind .] theorem steady_doWhileStatement : doWhileStatement.Steady strict := by
  refine steady_node (steady_bind steady_advance fun _ => steady_bind (steady_body _) fun _ => ?_)
  exact steady_bind (steady_expect _ _) fun found => steady_ifThen (steady_parenHeader _) (by grind)

@[grind .] theorem steady_optionalExpression : optionalExpression.Steady strict := by grind [optionalExpression]

@[grind .] theorem steady_localBindings : localBindings.Steady strict := by
  have hbinding : (node .localBinding do
      advance
      if ← currentIs .equals <||> currentIs .newSlot then
        advance
        expressionOrTable).Steady strict := steady_node (by grind)
  grind [localBindings]

@[grind .] theorem steady_localDeclaration (isStatement : Bool) : (localDeclaration isStatement).Steady strict := by
  cases isStatement <;> grind [localDeclaration]

@[grind .] theorem steady_caseStatements : caseStatements.Steady strict := by grind [caseStatements]

@[grind .] theorem steady_caseClause : caseClause.Steady strict := by grind [caseClause]

@[grind .] theorem steady_defaultClause : defaultClause.Steady strict := by grind [defaultClause]

@[grind .] theorem steady_switchClauses (seenDefault : Bool) : (switchClauses seenDefault).Steady strict := by
  cases seenDefault <;> grind [switchClauses]

@[grind .] theorem steady_switchStatement : switchStatement.Steady strict := by
  refine steady_node (steady_bind steady_advance fun _ => steady_bind (steady_parenHeader _) fun _ => ?_)
  refine steady_bind (steady_currentIs _) fun opens => ?_
  split
  · exact steady_delimited (by grind)
  · grind

@[grind .] theorem steady_jumpStatement (kind : Kind) (keyword : String) :
    (jumpStatement kind keyword).Steady strict := by
  grind [jumpStatement]

@[grind .] theorem steady_returnStatement : returnStatement.Steady strict := by grind [returnStatement]

@[grind .] theorem steady_yieldStatement : yieldStatement.Steady strict := by
  refine steady_node (steady_bind steady_advance fun _ => steady_bind (by grind) fun starts => ?_)
  exact steady_ifThen steady_expression (steady_expectTerminator _)

@[grind .] theorem steady_throwStatement : throwStatement.Steady strict := by grind [throwStatement]

@[grind .] theorem steady_varStatement : varStatement.Steady strict := by
  refine steady_node (steady_bind steady_advance fun _ => steady_bind (steady_expect _ _) fun named => ?_)
  have hends : (eat .semicolon >>= fun _ => (pure () : Rule Unit)).Steady strict := by grind
  split
  · exact steady_bind (steady_expect _ _) fun valued => steady_ifThen steady_expressionOrTable hends
  · exact hends

@[grind .] theorem steady_tryStatement : tryStatement.Steady strict := by
  have hcatch : (node .catchStatement do
      advance
      if ← currentIs .parenOpen then
        openDelimiter .parenOpen
        let _ ← expect .id "exception variable"
        closeDelimiter .parenClose "`catch` binding"
      else
        let _ ← expect .parenOpen "`(` after `catch`"
      body "`catch` body").Steady strict := by
    refine steady_node (steady_bind steady_advance fun _ => steady_bind (steady_currentIs _) fun opens => ?_)
    split
    · exact steady_delimitedThen (steady_expect _ _) fun _ => steady_body _
    · grind
  refine steady_node (steady_bind steady_advance fun _ => steady_bind (steady_body _) fun _ => ?_)
  grind

@[grind .] theorem steady_expressionStatement : expressionStatement.Steady strict := by grind [expressionStatement]

/-! ### Headers -/

/-- A header that is opened waits to be closed. -/
theorem trades_openHeader (statement : String) :
    (openHeader statement).Trades strict .none fun opened => if opened = true then .opener else .none := by
  refine Trades.bind (steady_currentIs .parenOpen) fun opens => ?_
  cases opens with
  | true => exact (trades_openDelimiter .parenOpen).bind fun _ => trades_pure rfl
  | false => exact Trades.bind (steady_expect _ _) fun _ => trades_pure rfl

theorem trades_closeHeader (opened : Bool) (construct : String) :
    (closeHeader opened construct).Trades strict (if opened = true then .opener else .none) fun _ => .none := by
  cases opened with
  | true => exact trades_closeDelimiter _ _
  | false => exact steady_bind (steady_expect _ _) fun _ => steady_pure ()

@[grind .] theorem steady_forStatement : forStatement.Steady strict := by
  have hclauses (opened : Bool) : (expect .semicolon "`;` after `for` initializer" >>= fun _ => optionalExpression >>=
      fun _ => expect .semicolon "`;` after `for` condition" >>= fun _ => optionalExpression >>= fun _ =>
        closeHeader opened "`for` header" >>= fun _ => body "`for` body").Trades strict
          (if opened = true then .opener else .none) fun _ => .none := by
    refine ((steady_expect _ _).trades _).bind fun _ => (steady_optionalExpression.trades _).bind fun _ => ?_
    refine ((steady_expect _ _).trades _).bind fun _ => (steady_optionalExpression.trades _).bind fun _ => ?_
    exact (trades_closeHeader opened _).bind fun _ => steady_body _
  refine steady_node (steady_bind steady_advance fun _ => (trades_openHeader _).bind fun opened => ?_)
  refine ((steady_currentIs _).trades _).bind fun isLocal => ?_
  cases isLocal with
  | true => exact ((steady_localDeclaration false).trades _).bind fun _ => hclauses opened
  | false => exact (steady_optionalExpression.trades _).bind fun _ => hclauses opened

@[grind .] theorem steady_foreachStatement : foreachStatement.Steady strict := by
  have hrange (opened : Bool) : (expect .kwIn "`in`" >>= fun found =>
      let rest := closeHeader opened "`foreach` header" >>= fun _ => body "`foreach` body"
      if found = true then expression >>= fun _ => rest else rest).Trades strict
        (if opened = true then .opener else .none) fun _ => .none := by
    refine ((steady_expect _ _).trades _).bind fun found => trades_ifThen steady_expression ?_
    exact (trades_closeHeader opened _).bind fun _ => steady_body _
  refine steady_node (steady_bind steady_advance fun _ => (trades_openHeader _).bind fun opened => ?_)
  refine ((steady_expect _ _).trades _).bind fun named => ?_
  cases named with
  | true =>
    refine ((steady_eat _).trades _).bind fun keyed => ?_
    exact trades_ifThen (steady_expect _ _) (hrange opened)
  | false => exact hrange opened

@[grind .] theorem steady_knownStatement : knownStatement.Steady strict := by
  refine steady_bind steady_current fun kind => ?_
  split <;> grind

/-! ### Nesting -/

/-- A level that is gone down waits to be come up from. -/
theorem trades_descend : (ofStep .descend).Trades strict .none fun descended => if descended = true then .level else .none :=
  fun _ _ => ⟨trivial, fun descended _ => by cases descended <;> exact ⟨rfl, Nat.le_refl _⟩⟩

theorem trades_ascend : (ofStep .ascend).Trades strict .level fun _ => .none :=
  fun _ _ => ⟨Nat.succ_pos _, fun _ _ => ⟨rfl, Nat.le_refl _⟩⟩

@[grind .] theorem steady_statement : statement.Steady strict := by
  refine trades_descend.bind fun descended => ?_
  cases descended with
  | false => exact steady_abandon
  | true =>
    refine ((steady_currentIs .garbage).trades .level).bind fun isGarbage => ?_
    cases isGarbage with
    | true => exact (steady_advanceGarbage.trades .level).bind fun _ => trades_ascend
    | false =>
      refine (steady_startsStatement.trades .level).bind fun starts => ?_
      cases starts with
      | true => exact (steady_knownStatement.trades .level).bind fun _ => trades_ascend
      | false => exact (steady_recoverStatement.trades .level).bind fun _ => trades_ascend

@[grind .] theorem steady_script : script.Steady strict := by grind [script]

/-- The operators go back to the start of their expression, which stands in front of all that they take in. -/
theorem balanced_operators {start power sure : Nat} (hstart : strict → start ≤ sure) (rest : Debt) :
    (operators start power).Balanced strict ⟨rest, sure⟩ fun _ after =>
      after.toDebt = rest ∧ min sure start ≤ after.sure := by
  refine ⟨trivial, fun halted _ => ?_⟩
  cases halted with
  | true => exact ⟨rfl, Nat.min_le_left _ _⟩
  | false =>
    refine ⟨trivial, fun kind _ => ⟨trivial, fun afterLineBreak _ => ?_⟩⟩
    dsimp only [Rule.bind]
    split
    · exact ⟨rfl, Nat.min_le_left _ _⟩
    · next found hfound =>
      have hsuffix : (suffix found).Steady strict := steady_suffix found
      refine ⟨hstart, (hsuffix rest 0).mono fun _ after hafter => ⟨fun _ mark hmark => ?_, hafter.1, ?_⟩⟩
      · obtain rfl := Option.some.inj hmark
        exact Nat.le_succ start
      · show min sure start ≤ min (start + 1) start
        omega

/-- An expression hands the operators a mark that stands. -/
@[grind .] theorem steady_expressionOf (power : Nat) (tableAllowed : Bool) :
    (expressionOf power tableAllowed).Steady strict := by
  refine trades_descend.bind fun descended => ?_
  cases descended with
  | false => exact steady_abandon
  | true =>
    refine fun rest sure => ⟨trivial, fun start hstart => ?_⟩
    have hoperand : (operand tableAllowed).Steady strict := steady_operand tableAllowed
    refine hoperand.andThen fun found more hmore => ?_
    cases found with
    | true =>
      refine ⟨fun _ mark hmark => Option.some.inj hmark ▸ hmore, Nat.succ_pos _, fun _ _ => ⟨rfl, ?_⟩⟩
      exact Nat.le_trans hstart (Nat.le_min.mpr ⟨hmore, Nat.le_refl start⟩)
    | false =>
      have hmissing : (reportHere .expectedExpression none >>= fun _ => ofStep .ascend).Trades strict .level
          fun _ => .none := ((steady_reportHere _ _).trades .level).bind fun _ => trades_ascend
      exact (hmissing rest more).mono fun _ _ hafter => ⟨hafter.1, Nat.le_trans (Nat.le_trans hstart hmore) hafter.2⟩

/-- Every nonterminal closes what it opens. -/
theorem isBalanced (nonterminal : Nonterminal) : nonterminal.IsBalanced := by
  intro strict sure hstands
  have hsteady {rule : Rule Unit} (hrule : rule.Steady strict) :
      rule.Balanced strict ⟨.none, sure⟩ fun _ after => after.toDebt = .none ∧ sure ≤ after.sure := hrule .none sure
  cases nonterminal with
  | operators start power => exact balanced_operators (fun hstrict => hstands hstrict start rfl) .none
  | _ => exact hsteady (by grind [ruleOf])

end Grammar

end Squirrel

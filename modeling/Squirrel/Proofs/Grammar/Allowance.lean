import Squirrel.Proofs.Grammar.Allowance.Expression

/-!
# The allowances of a parse are enough

No source that can be read without a report meets either bound of the machine: it has enough looks between two moves, and
the number of nonterminals that may be open at once grows with the number of tokens.
-/

namespace Squirrel

namespace Grammar

open Rule

variable {fuel tokens looks : Nat} {result : Unit → Nat → Nat → Prop}

section

variable (hcalls : AffordableCalls fuel)

include hcalls

/-! ### Statements -/

theorem runs_blockStatements (hfuel : 3 * tokens + 2 ≤ fuel) (hlooks : 20 ≤ looks)
    (hresult : Stayed tokens looks (result ())) : blockStatements.Runs fuel tokens looks result := by
  refine runs_bind (runs_ending (runs_pure (hresult _ _ (by omega))) fun _ => runs_currentIs (by omega) fun _ => ?_)
  refine runs_ite (runs_pure (hresult _ _ (by omega))) (runs_bind (hcalls.statement hfuel fun _ _ _ => ?_))
  exact hcalls.list rfl (by omega) (by omega) fun _ _ _ => hresult _ _ (by omega)

theorem runs_parenHeader {construct : String} (hfuel : 3 * tokens ≤ fuel) (hlooks : 4 ≤ looks)
    (hresult : ∀ left more, left < tokens ∧ 150 ≤ more → result () left more) :
    (parenHeader construct).Runs fuel tokens looks result := by
  refine runs_bind (runs_currentIs (by omega) fun _ => runs_ite ?_ ?_)
  · refine runs_bind (runs_open fun _ _ _ => runs_bind (hcalls.expression (by omega) fun _ _ _ => ?_))
    exact runs_close (by omega) fun _ _ _ => hresult _ _ (by omega)
  · refine runs_bind (runs_expect (by omega) fun _ _ _ => runs_bind (runs_currentIn (by omega) fun _ => runs_ite ?_ ?_))
    · refine runs_bind (hcalls.expression (by omega) fun _ _ _ => runs_bind (runs_expect (by omega) fun _ _ _ => ?_))
      exact runs_pure (hresult _ _ (by omega))
    · exact runs_pure (hresult _ _ (by omega))

omit hcalls in
/-- The semicolon that may end a statement. -/
theorem runs_semicolon (hlooks : 60 ≤ looks) (hresult : Kept tokens (result ())) :
    (eat .semicolon >>= fun _ => (pure () : Rule Unit)).Runs fuel tokens looks result :=
  runs_bind (runs_eat (by omega) (fun _ _ _ => runs_pure (hresult _ _ (by omega))) (runs_pure (hresult _ _ (by omega))))

theorem runs_optionalExpression (hfuel : 3 * tokens + 1 ≤ fuel) (hlooks : 100 ≤ looks)
    (hresult : ∀ left less, left ≤ tokens ∧ looks - 1 ≤ less ∨ left < tokens ∧ 200 ≤ less → result () left less) :
    optionalExpression.Runs fuel tokens looks result := by
  refine runs_bind (runs_currentIn (by omega) fun _ => runs_ite ?_ (runs_pure (hresult _ _ (by omega))))
  exact hcalls.expression hfuel fun _ _ _ => hresult _ _ (by omega)

omit hcalls in
theorem runs_openHeader {statement : String} {result : Bool → Nat → Nat → Prop} (hlooks : 2 ≤ looks)
    (hresult : ∀ opened, Moved tokens (result opened)) : (openHeader statement).Runs fuel tokens looks result := by
  refine runs_bind (runs_currentIs (by omega) fun _ => runs_ite ?_ ?_)
  · exact runs_bind (runs_open fun _ _ hmoved => runs_pure (hresult true _ _ hmoved))
  · exact runs_bind (runs_expect (by omega) fun _ _ hmoved => runs_pure (hresult false _ _ hmoved))

omit hcalls in
theorem runs_closeHeader {opened : Bool} {construct : String} (hlooks : 2 ≤ looks) (hresult : Moved tokens (result ())) :
    (closeHeader opened construct).Runs fuel tokens looks result :=
  runs_ite (runs_close hlooks hresult)
    (runs_bind (runs_expect (by omega) fun _ _ hmoved => runs_pure (hresult _ _ hmoved)))

theorem runs_ifStatement (hfuel : 3 * tokens ≤ fuel) (hresult : Passed tokens (result ())) :
    ifStatement.Runs fuel tokens looks result := by
  -- what follows the condition
  have hrest {left less : Nat} (hleft : left < tokens ∧ 2 ≤ less) : (do
      body "`if` branch"
      if ← currentIs .kwElse then
        node .elseStatement do
          advance
          body "`else` branch" : Rule Unit).Runs fuel left less result := by
    refine runs_bind (runs_body hcalls (by omega) (by omega) fun _ _ _ => runs_bind (runs_currentIs (by omega) fun _ => ?_))
    refine runs_ite (runs_node (runs_bind (runs_advance fun _ _ _ => ?_))) (runs_pure (hresult _ _ (by omega)))
    exact runs_body hcalls (by omega) (by omega) fun _ _ _ => hresult _ _ (by omega)
  refine runs_node (runs_bind (runs_advance fun _ _ _ => runs_bind (runs_currentIs (by omega) fun _ => runs_ite ?_ ?_)))
  · refine runs_bind (runs_node (runs_bind (runs_open fun _ _ _ => ?_)))
    refine runs_bind (hcalls.expression (by omega) fun _ _ _ => ?_)
    exact runs_close (by omega) fun _ _ _ => hrest (by omega)
  · exact runs_bind (runs_expect (by omega) fun _ _ _ => hrest (by omega))

theorem runs_whileStatement (hfuel : 3 * tokens ≤ fuel) (hresult : Passed tokens (result ())) :
    whileStatement.Runs fuel tokens looks result := by
  refine runs_node (runs_bind (runs_advance fun _ _ _ => ?_))
  refine runs_bind (runs_parenHeader hcalls (by omega) (by omega) fun _ _ _ => ?_)
  refine runs_bind (runs_currentIn (by omega) fun _ => runs_ite ?_ (runs_pure (hresult _ _ (by omega))))
  exact hcalls.statement (by omega) fun _ _ _ => hresult _ _ (by omega)

theorem runs_doWhileStatement (hfuel : 3 * tokens ≤ fuel) (hresult : Passed tokens (result ())) :
    doWhileStatement.Runs fuel tokens looks result := by
  refine runs_node (runs_bind (runs_advance fun _ _ _ => runs_bind (runs_body hcalls (by omega) (by omega) fun _ _ _ => ?_)))
  refine runs_bind (runs_expect (by omega) fun _ _ _ => ?_)
  refine runs_bind (runs_parenHeader hcalls (by omega) (by omega) fun _ _ _ => ?_)
  exact runs_semicolon (by omega) fun _ _ _ => hresult _ _ (by omega)

theorem runs_localBindings (hfuel : 3 * tokens + 2 ≤ fuel) (hlooks : 20 ≤ looks) (hresult : Stayed tokens looks (result ())) :
    localBindings.Runs fuel tokens looks result := by
  have hnext {left less : Nat} (hleft : left < tokens ∧ 150 ≤ less) :
      (eat .comma >>= fun found => if found = true then call .localBindings else pure ()).Runs fuel left less result := by
    refine runs_bind (runs_eat (by omega) (fun _ _ _ => ?_) (runs_pure (hresult _ _ (by omega))))
    exact hcalls.list rfl (by omega) (by omega) fun _ _ _ => hresult _ _ (by omega)
  refine runs_bind (runs_currentIs (by omega) fun _ => runs_ite (runs_bind (runs_node ?_)) runs_reportHere)
  refine runs_bind (runs_advance fun _ _ _ => ?_)
  -- the sign and the value of the binding
  have hvalue {answer : Bool} {left less : Nat} (hleft : left < tokens ∧ 150 ≤ less) :
      (if answer = true then (do advance; expressionOrTable) else pure () : Rule Unit).Runs fuel left less
        fun _ left less => left < tokens ∧ 150 ≤ less := by
    refine runs_ite (runs_bind (runs_advance fun _ _ _ => ?_)) (runs_pure hleft)
    exact hcalls.expression (by omega) fun _ _ _ => by omega
  refine runs_bind (runs_orM (runs_currentIs (by omega) fun _ => ⟨fun _ => ?_, fun _ => runs_currentIs (by omega) fun _ => ?_⟩))
  all_goals exact runs_mono (hvalue (by omega)) fun _ _ _ hleft => hnext hleft

theorem runs_localDeclaration (isStatement : Bool) (hfuel : 3 * tokens ≤ fuel)
    (hresult : ∀ left less, left < tokens ∧ 10 ≤ less → result () left less) :
    (localDeclaration isStatement).Runs fuel tokens looks result := by
  refine runs_node (runs_bind (runs_advance fun _ _ _ => runs_bind (hcalls.list rfl (by omega) (by omega) fun _ _ _ => ?_)))
  refine runs_ite (runs_bind (runs_eat (by omega) (fun _ _ _ => runs_pure ?_) (runs_pure ?_))) (runs_pure ?_)
  all_goals exact hresult _ _ (by omega)

theorem runs_forStatement (hfuel : 3 * tokens ≤ fuel) (hresult : Passed tokens (result ())) :
    forStatement.Runs fuel tokens looks result := by
  -- what follows the initializer
  have hrest {opened : Bool} {left less : Nat} (hleft : left < tokens ∧ 1 ≤ less) : (do
      let _ ← expect .semicolon "`;` after `for` initializer"
      optionalExpression
      let _ ← expect .semicolon "`;` after `for` condition"
      optionalExpression
      closeHeader opened "`for` header"
      body "`for` body" : Rule Unit).Runs fuel left less result := by
    refine runs_bind (runs_expect (by omega) fun _ _ _ => ?_)
    refine runs_bind (runs_optionalExpression hcalls (by omega) (by omega) fun _ _ _ => ?_)
    refine runs_bind (runs_expect (by omega) fun _ _ _ => ?_)
    refine runs_bind (runs_optionalExpression hcalls (by omega) (by omega) fun _ _ _ => ?_)
    refine runs_bind (runs_closeHeader (by omega) fun _ _ _ => ?_)
    exact runs_body hcalls (by omega) (by omega) fun _ _ _ => hresult _ _ (by omega)
  refine runs_node (runs_bind (runs_advance fun _ _ _ => runs_bind (runs_openHeader (by omega) fun _ _ _ _ => ?_)))
  refine runs_bind (runs_currentIs (by omega) fun _ => runs_ite (runs_bind ?_) (runs_bind ?_))
  · exact runs_localDeclaration hcalls false (by omega) fun _ _ _ => hrest (by omega)
  · exact runs_optionalExpression hcalls (by omega) (by omega) fun _ _ _ => hrest (by omega)

theorem runs_foreachStatement (hfuel : 3 * tokens ≤ fuel) (hresult : Passed tokens (result ())) :
    foreachStatement.Runs fuel tokens looks result := by
  -- what follows the variables, and what follows the collection
  have hbody (opened : Bool) {left less : Nat} (hleft : left < tokens ∧ 2 ≤ less) :
      (closeHeader opened "`foreach` header" >>= fun _ => body "`foreach` body").Runs fuel left less result := by
    refine runs_bind (runs_closeHeader (by omega) fun _ _ _ => ?_)
    exact runs_body hcalls (by omega) (by omega) fun _ _ _ => hresult _ _ (by omega)
  have hrest (opened : Bool) {left less : Nat} (hleft : left < tokens ∧ 1 ≤ less) : (do
      if ← expect .kwIn "`in`" then expression
      closeHeader opened "`foreach` header"
      body "`foreach` body" : Rule Unit).Runs fuel left less result := by
    refine runs_bind (runs_expect (by omega) fun _ _ _ => runs_bind (hcalls.expression (by omega) fun _ _ _ => ?_))
    exact hbody opened (by omega)
  refine runs_node (runs_bind (runs_advance fun _ _ _ => runs_bind (runs_openHeader (by omega) fun opened _ _ _ => ?_)))
  refine runs_bind (runs_expect (by omega) fun _ _ _ => runs_bind (runs_eat (by omega) (fun _ _ _ => ?_) ?_))
  · exact runs_bind (runs_expect (by omega) fun _ _ _ => hrest opened (by omega))
  · exact hrest opened (by omega)

theorem runs_caseStatements (hfuel : 3 * tokens + 2 ≤ fuel) (hlooks : 20 ≤ looks)
    (hresult : ∀ left less, left ≤ tokens ∧ min looks 100 ≤ less + 5 → result () left less) : caseStatements.Runs fuel tokens looks result := by
  refine runs_bind (runs_ending (runs_pure (hresult _ _ (by omega))) fun _ => runs_currentIn (by omega) fun _ => ?_)
  refine runs_ite (runs_pure (hresult _ _ (by omega))) (runs_bind (hcalls.statement hfuel fun _ _ _ => ?_))
  exact hcalls.caseStatements (by omega) (by omega) fun _ _ _ => hresult _ _ (by omega)

theorem runs_caseClause (hfuel : 3 * tokens ≤ fuel)
    (hresult : Passed tokens (result ())) :
    caseClause.Runs fuel tokens looks result := by
  refine runs_node (runs_bind (runs_advance fun _ _ _ => runs_bind (hcalls.expression (by omega) fun _ _ _ => ?_)))
  refine runs_bind (runs_expect (by omega) fun _ _ _ => ?_)
  exact hcalls.caseStatements (by omega) (by omega) fun _ _ _ => hresult _ _ (by omega)

theorem runs_defaultClause (hfuel : 3 * tokens ≤ fuel)
    (hresult : Passed tokens (result ())) :
    defaultClause.Runs fuel tokens looks result := by
  refine runs_node (runs_bind (runs_advance fun _ _ _ => runs_bind (runs_expect (by omega) fun _ _ _ => ?_)))
  exact hcalls.caseStatements (by omega) (by omega) fun _ _ _ => hresult _ _ (by omega)

theorem runs_switchClauses (seenDefault : Bool) (hfuel : 3 * tokens + 2 ≤ fuel) (hlooks : 20 ≤ looks)
    (hresult : Stayed tokens looks (result ())) : (switchClauses seenDefault).Runs fuel tokens looks result := by
  refine runs_bind (runs_stopped (runs_pure (hresult _ _ (by omega))) fun _ => ?_)
  refine runs_bind (runs_current (by omega) fun kind => ?_)
  split
  · exact runs_pure (hresult _ _ (by omega))
  · refine runs_ite (runs_deadBind fun _ _ => read_reportHere ..) (runs_bind ?_)
    refine runs_caseClause hcalls (by omega) fun _ _ _ => ?_
    exact hcalls.list rfl (by omega) (by omega) fun _ _ _ => hresult _ _ (by omega)
  · refine runs_ite (runs_deadBind fun _ _ => read_reportHere ..) (runs_bind ?_)
    refine runs_defaultClause hcalls (by omega) fun _ _ _ => ?_
    exact hcalls.list rfl (by omega) (by omega) fun _ _ _ => hresult _ _ (by omega)
  · exact runs_recover

theorem runs_switchStatement (hfuel : 3 * tokens ≤ fuel) (hresult : Passed tokens (result ())) :
    switchStatement.Runs fuel tokens looks result := by
  refine runs_node (runs_bind (runs_advance fun _ _ _ => ?_))
  refine runs_bind (runs_parenHeader hcalls (by omega) (by omega) fun _ _ _ => ?_)
  refine runs_bind (runs_currentIs (by omega) fun _ => runs_ite ?_ ?_)
  · exact runs_between hcalls rfl (by omega) fun _ _ _ => hresult _ _ (by omega)
  · exact runs_bind (runs_expect (by omega) fun _ _ _ => runs_pure (hresult _ _ (by omega)))

omit hcalls in
theorem runs_jumpStatement {kind : Kind} {keyword : String} (hresult : Passed tokens (result ())) :
    (jumpStatement kind keyword).Runs fuel tokens looks result := by
  refine runs_node (runs_bind (runs_advance fun _ _ _ => ?_))
  refine runs_bind (runs_eat (by omega) (fun _ _ _ => runs_pure (hresult _ _ (by omega))) ?_)
  refine runs_bind (runs_glance rfl rfl fun previous? => ?_)
  cases previous? with
  | none => exact runs_pure (hresult _ _ (by omega))
  | some token => exact runs_dead fun _ _ => rfl

theorem runs_returnStatement (hfuel : 3 * tokens ≤ fuel) (hresult : Passed tokens (result ())) :
    returnStatement.Runs fuel tokens looks result := by
  have hend {left less : Nat} (hleft : left < tokens ∧ 100 ≤ less) :
      (eat .semicolon >>= fun _ => (pure () : Rule Unit)).Runs fuel left less result :=
    runs_semicolon (by omega) fun _ _ _ => hresult _ _ (by omega)
  refine runs_node (runs_bind (runs_advance fun _ _ _ => ?_))
  refine runs_bind (runs_startsExpressionOrTable (by omega) fun _ _ _ => runs_ite (runs_bind ?_) (hend (by omega)))
  exact hcalls.expression (by omega) fun _ _ _ => hend (by omega)

theorem runs_yieldStatement (hfuel : 3 * tokens ≤ fuel) (hresult : Passed tokens (result ())) :
    yieldStatement.Runs fuel tokens looks result := by
  have hend {left less : Nat} (hleft : left < tokens ∧ 100 ≤ less) :
      (expectTerminator "`yield`").Runs fuel left less result :=
    runs_terminator (by omega) fun _ _ _ => hresult _ _ (by omega)
  have hvalue {answer : Bool} {left less : Nat} (hleft : left < tokens ∧ 100 ≤ less) :
      (if answer = true then expression >>= fun _ => expectTerminator "`yield`" else expectTerminator "`yield`").Runs fuel
        left less result :=
    runs_ite (runs_bind (hcalls.expression (by omega) fun _ _ _ => hend (by omega))) (hend hleft)
  refine runs_node (runs_bind (runs_advance fun _ _ _ => runs_bind (runs_bind (runs_currentIn (by omega) fun found => ?_))))
  cases found with
  | true => exact runs_bind (runs_glance rfl rfl fun _ => runs_pure (hvalue (by omega)))
  | false => exact runs_pure (hvalue (by omega))

theorem runs_throwStatement (hfuel : 3 * tokens ≤ fuel) (hresult : Passed tokens (result ())) :
    throwStatement.Runs fuel tokens looks result := by
  refine runs_node (runs_bind (runs_advance fun _ _ _ => runs_bind (hcalls.expression (by omega) fun _ _ _ => ?_)))
  exact runs_semicolon (by omega) fun _ _ _ => hresult _ _ (by omega)

theorem runs_varStatement (hfuel : 3 * tokens ≤ fuel) (hresult : Passed tokens (result ())) :
    varStatement.Runs fuel tokens looks result := by
  refine runs_node (runs_bind (runs_advance fun _ _ _ => runs_bind (runs_expect (by omega) fun _ _ _ => ?_)))
  refine runs_bind (runs_expect (by omega) fun _ _ _ => runs_bind (hcalls.expression (by omega) fun _ _ _ => ?_))
  exact runs_semicolon (by omega) fun _ _ _ => hresult _ _ (by omega)

theorem runs_tryStatement (hfuel : 3 * tokens ≤ fuel) (hresult : Passed tokens (result ())) :
    tryStatement.Runs fuel tokens looks result := by
  have hbody {left less : Nat} (hleft : left < tokens ∧ 2 ≤ less) :
      (body "`catch` body").Runs fuel left less result :=
    runs_body hcalls (by omega) (by omega) fun _ _ _ => hresult _ _ (by omega)
  refine runs_node (runs_bind (runs_advance fun _ _ _ => runs_bind (runs_body hcalls (by omega) (by omega) fun _ _ _ => ?_)))
  refine runs_bind (runs_currentIs (by omega) fun _ => runs_ite (runs_node (runs_bind (runs_advance fun _ _ _ => ?_))) ?_)
  · refine runs_bind (runs_currentIs (by omega) fun _ => runs_ite ?_ ?_)
    · refine runs_bind (runs_open fun _ _ _ => runs_bind (runs_expect (by omega) fun _ _ _ => ?_))
      exact runs_bind (runs_close (by omega) fun _ _ _ => hbody (by omega))
    · exact runs_bind (runs_expect (by omega) fun _ _ _ => hbody (by omega))
  · exact runs_bind (runs_expect (by omega) fun _ _ _ => runs_pure (hresult _ _ (by omega)))

theorem runs_expressionStatement (hfuel : 3 * tokens + 1 ≤ fuel) (hresult : Passed tokens (result ())) :
    expressionStatement.Runs fuel tokens looks result := by
  refine runs_node (runs_bind (hcalls.expression hfuel fun _ _ _ => ?_))
  exact runs_semicolon (by omega) fun _ _ _ => hresult _ _ (by omega)

theorem runs_block (hfuel : 3 * tokens ≤ fuel) (hresult : Moved tokens (result ())) :
    block.Runs fuel tokens looks result :=
  runs_node (runs_between hcalls rfl hfuel hresult)

theorem runs_knownStatement (hfuel : 3 * tokens + 1 ≤ fuel) (hlooks : 2 ≤ looks)
    (hresult : ∀ left less, left < tokens → result () left less) : knownStatement.Runs fuel tokens looks result := by
  have hpassed : Passed tokens (result ()) := fun _ _ hleft => hresult _ _ hleft.1
  have hfuel' : 3 * tokens ≤ fuel := by omega
  refine runs_bind (runs_current (by omega) fun kind => ?_)
  split
  · exact runs_block hcalls hfuel' fun _ _ hmoved => hresult _ _ hmoved.1
  · exact runs_node (runs_advance fun _ _ hmoved => hresult _ _ hmoved.1)
  · exact runs_ifStatement hcalls hfuel' hpassed
  · exact runs_whileStatement hcalls hfuel' hpassed
  · exact runs_doWhileStatement hcalls hfuel' hpassed
  · exact runs_switchStatement hcalls hfuel' hpassed
  · exact runs_forStatement hcalls hfuel' hpassed
  · exact runs_foreachStatement hcalls hfuel' hpassed
  · exact runs_jumpStatement hpassed
  · exact runs_jumpStatement hpassed
  · exact runs_returnStatement hcalls hfuel' hpassed
  · exact runs_yieldStatement hcalls hfuel' hpassed
  · exact runs_localDeclaration hcalls true hfuel' fun _ _ hleft => hresult _ _ hleft.1
  · exact runs_varStatement hcalls hfuel' hpassed
  · refine runs_bind (runs_glance rfl rfl fun _ => runs_ite ?_ ?_)
    · exact runs_functionDeclaration hcalls hfuel' hpassed
    · exact runs_expressionStatement hcalls hfuel hpassed
  · exact runs_classDeclaration hcalls hfuel' hpassed
  · exact runs_tryStatement hcalls hfuel' hpassed
  · exact runs_throwStatement hcalls hfuel' hpassed
  · exact runs_constDeclaration hcalls hfuel' hpassed
  · exact runs_enumDeclaration hcalls hfuel' hpassed
  · exact runs_expressionStatement hcalls hfuel hpassed

theorem runs_statement (hfuel : 3 * tokens + 1 ≤ fuel)
    (hresult : ∀ left more, left ≤ tokens - 1 ∧ 200 ≤ more → result () left more) :
    statement.Runs fuel tokens looks result := by
  have hascend {left less : Nat} (hleft : left ≤ tokens - 1) : (ofStep .ascend).Runs fuel left less result :=
    runs_ascend fun _ _ => hresult _ _ (by omega)
  refine runs_bind (runs_descend fun _ _ => runs_bind (runs_currentIs (by omega) fun _ => runs_ite ?_ ?_))
  · exact runs_bind (runs_advanceGarbage (by omega) fun _ _ _ => hascend (by omega))
  · refine runs_bind (runs_currentIn (by omega) fun _ => runs_ite (runs_bind ?_) ?_)
    · exact runs_knownStatement hcalls hfuel (by omega) fun _ _ _ => hascend (by omega)
    · refine runs_bind (runs_bind (runs_stopped (runs_pure (hascend (by omega))) fun _ => runs_node ?_))
      exact runs_deadBind fun _ _ => read_reportHere ..

theorem runs_script (hfuel : 3 * tokens + 2 ≤ fuel) (hlooks : 20 ≤ looks) (hresult : Stayed tokens looks (result ())) :
    script.Runs fuel tokens looks result := by
  refine runs_bind (runs_stopped (runs_pure (hresult _ _ (by omega))) fun _ => ?_)
  refine runs_bind (runs_currentIs (by omega) fun _ => runs_ite (runs_deadBind fun _ _ => read_reportHere ..) ?_)
  refine runs_bind (hcalls.statement hfuel fun _ _ _ => ?_)
  exact hcalls.list rfl (by omega) (by omega) fun _ _ _ => hresult _ _ (by omega)

/-- The rules of what repeats. -/
theorem runs_list {nonterminal : Nonterminal} (hlist : nonterminal.isList = true) (hfuel : 3 * tokens + 2 ≤ fuel)
    (hlooks : 20 ≤ looks) (hresult : Stayed tokens looks (result ())) :
    (ruleOf nonterminal).Runs fuel tokens looks result := by
  cases nonterminal with
  | script => exact runs_script hcalls hfuel hlooks hresult
  | blockStatements => exact runs_blockStatements hcalls hfuel hlooks hresult
  | switchClauses seenDefault => exact runs_switchClauses hcalls seenDefault hfuel hlooks hresult
  | localBindings => exact runs_localBindings hcalls hfuel hlooks hresult
  | arguments => exact runs_arguments hcalls hfuel hlooks hresult
  | elements => exact runs_elements hcalls hfuel hlooks hresult
  | slots => exact runs_slots hcalls hfuel hlooks hresult
  | parameterList variadics count => exact runs_parameterList hcalls variadics count hfuel hlooks hresult
  | path separator => exact runs_path hcalls separator hfuel hlooks hresult
  | members => exact runs_members hcalls hfuel hlooks hresult
  | enumEntries => exact runs_enumEntries hcalls hfuel hlooks hresult
  | attributeList => exact runs_attributeList hcalls hfuel hlooks hresult
  | statement | caseStatements | expression | operators | skipUntil | skipToStatement => exact nomatch hlist

end

end Grammar

open Grammar

/-- So many nonterminals open at once are enough. -/
theorem affordableCalls (fuel : Nat) : AffordableCalls fuel := by
  induction fuel with
  | zero => constructor <;> intros <;> omega
  | succ fuel ih =>
    exact {
      expression := fun hfuel hresult => runs_call (runs_expressionOf ih _ _ (by omega) hresult)
      operators := fun hfuel hlooks hresult => runs_call (runs_operators ih _ _ (by omega) hlooks hresult)
      statement := fun hfuel hresult => runs_call (runs_statement ih (by omega) hresult)
      caseStatements := fun hfuel hlooks hresult => runs_call (runs_caseStatements ih (by omega) hlooks hresult)
      list := fun hlist hfuel hlooks hresult => runs_call (runs_list ih hlist (by omega) hlooks hresult) }

/-- What the grammar reads from the start of a source is what an unlimited parse does to it. -/
theorem Grammar.exists_run_of_gives {tokens : List Token} {sourceLength : Nat} {after : View}
    (hgives : (call .script).Gives (State.initial .unbounded tokens sourceLength).view () after) :
    ∃ reached, Nonterminal.run (nestingBound tokens.length) .script (State.initial .unbounded tokens sourceLength)
      = .ok reached ∧ reached.view = after ∧ reached.Free := by
  have hruns : (call .script).Runs (nestingBound tokens.length) tokens.length State.lookLimit fun _ _ _ => True :=
    (affordableCalls _).list rfl (by simp only [nestingBound]; omega) (by decide) fun _ _ _ => trivial
  obtain ⟨reached, _, _, hexec, hview, hfree, _⟩ :=
    hruns (State.initial .unbounded tokens sourceLength) () after ⟨rfl, rfl, rfl, rfl, rfl⟩ (Nat.le_refl _)
      (Nat.le_refl _) hgives
  exact ⟨reached, Rule.run_of_exec_call hexec, hview, hfree⟩

end Squirrel

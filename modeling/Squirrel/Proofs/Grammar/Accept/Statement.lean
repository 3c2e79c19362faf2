import Squirrel.Proofs.Grammar.Accept.Expression

/-!
# Accepting statements

What stands in the middle of a statement and may be left out is told by the next word.
-/

namespace Squirrel.Grammar

open Word Rule

variable {settled : Bool} {words middle between inner last : List Word}
  {word left right name sign keyword semicolon : Word} {first second third fourth rest trees : List Tree} {kind : Kind}

/-! ### Blocks -/

theorem accepts_block (hleft : left.kind = .braceOpen)
    (hstatements : (call .blockStatements).Accepts false words () trees (right :: last))
    (hright : right.kind = .braceClose) :
    block.Accepts settled (left :: words) () [.node .block ([left.tree] ++ (trees ++ [right.tree]))] last :=
  accepts_node (accepts_between (by rw [hleft]; rfl) hstatements hright rfl)

theorem accepts_blockEnd (hhere : here words = .braceClose) :
    (call .blockStatements).Accepts settled words () [] words :=
  accepts_call (accepts_yes (looks_ending hhere nofun) (accepts_pure ()))

theorem StartsStatement.here_ne (hstarts : StartsStatement words) (hkind : TokenSet.statementFirst.contains kind = false) :
    here words ≠ kind := by
  rintro rfl
  rw [StartsStatement, hkind] at hstarts
  cases hstarts

theorem StartsStatement.ne_nil (hstarts : StartsStatement words) : words ≠ [] := by
  rintro rfl
  have hne : here [] ≠ .error := StartsStatement.here_ne hstarts (by decide)
  exact hne rfl

theorem accepts_blockMore (hstarts : StartsStatement words)
    (hstatement : (call .statement).Accepts true words () first middle)
    (hrest : (call .blockStatements).Accepts false middle () rest last) :
    (call .blockStatements).Accepts settled words () (first ++ rest) last :=
  accepts_call (accepts_no (looks_going (StartsStatement.ne_nil hstarts) (StartsStatement.here_ne hstarts (by decide)))
    (accepts_bind hstatement hrest))

/-! ### Conditions and loops -/

theorem accepts_header {construct : String} (hleft : left.kind = .parenOpen)
    (hvalue : expression.Accepts false words () trees (right :: last)) (hright : right.kind = .parenClose) :
    (parenHeader construct).Accepts settled (left :: words) () ([left.tree] ++ (trees ++ [right.tree])) last :=
  accepts_yes (looks_currentIs hleft) (accepts_between (by rw [hleft]; rfl) hvalue hright rfl)

def elseClause : Rule Unit := node .elseStatement do
  advance
  body "`else` branch"

def elseBranch : Rule Unit := do
  if ← currentIs .kwElse then elseClause

theorem accepts_noElse (hhere : here words ≠ .kwElse) : elseBranch.Accepts settled words () [] words :=
  accepts_no (looks_currentIs_other hhere) (accepts_pure ())

theorem accepts_someElse (hhere : here words = .kwElse) (hclause : elseClause.Accepts true words () trees last) :
    elseBranch.Accepts settled words () trees last :=
  accepts_yes (looks_currentIs hhere) hclause

theorem accepts_elseClause (hkeyword : keyword.kind = .kwElse) (hstarts : StartsStatement words)
    (hbody : (call .statement).Accepts true words () trees last) :
    elseClause.Accepts true (keyword :: words) () [.node .elseStatement ([keyword.tree] ++ trees)] last :=
  accepts_node (accepts_bind (accepts_advance (by rw [hkeyword]; rfl)) (accepts_body hstarts hbody))

theorem accepts_ifStatement (hkeyword : keyword.kind = .kwIf) (hhere : here words = .parenOpen)
    (hcondition : parenthesized.Accepts true words () first middle) (hstarts : StartsStatement middle)
    (hbody : (call .statement).Accepts true middle () second between)
    (helse : elseBranch.Accepts false between () third last) :
    ifStatement.Accepts true (keyword :: words) ()
      [.node .ifStatement ([keyword.tree] ++ (first ++ (second ++ third)))] last := by
  refine accepts_node (accepts_bind (accepts_advance (by rw [hkeyword]; rfl)) ?_)
  refine accepts_yes (looks_currentIs hhere) (accepts_bind hcondition ?_)
  exact accepts_bind (accepts_body hstarts hbody) helse

def loopBody : Rule Unit := do
  if ← startsStatement then call .statement

theorem accepts_noLoopBody (hstarts : ¬StartsStatement words) : loopBody.Accepts settled words () [] words :=
  accepts_no (looks_startsStatement_other hstarts) (accepts_pure ())

theorem accepts_someLoopBody (hstarts : StartsStatement words)
    (hbody : (call .statement).Accepts true words () trees last) : loopBody.Accepts settled words () trees last :=
  accepts_yes (looks_startsStatement hstarts) hbody

theorem accepts_whileStatement (hkeyword : keyword.kind = .kwWhile)
    (hheader : ∀ construct, (parenHeader construct).Accepts false words () first middle)
    (hbody : loopBody.Accepts false middle () second last) :
    whileStatement.Accepts true (keyword :: words) ()
      [.node .whileStatement ([keyword.tree] ++ (first ++ second))] last := by
  refine accepts_node (accepts_bind (accepts_advance (by rw [hkeyword]; rfl)) ?_)
  exact accepts_bind (hheader _) hbody

theorem accepts_doWhileStatement (hkeyword : keyword.kind = .kwDo) (hstarts : StartsStatement words)
    (hbody : (call .statement).Accepts true words () first (word :: middle)) (hwhile : word.kind = .kwWhile)
    (hheader : ∀ construct, (parenHeader construct).Accepts false middle () second between) {answer : Bool}
    (hend : (eat .semicolon).Accepts false between answer third last) :
    doWhileStatement.Accepts true (keyword :: words) ()
      [.node .doWhileStatement ([keyword.tree] ++ (first ++ ([word.tree] ++ (second ++ third))))] last := by
  refine accepts_node (accepts_bind (accepts_advance (by rw [hkeyword]; rfl)) ?_)
  refine accepts_bind (accepts_body hstarts hbody) (accepts_taken (accepts_expect hwhile rfl) ?_)
  exact accepts_bind (hheader _) (accepts_whole () hend)

theorem accepts_noExpression (hstarts : ¬StartsExpression words) : optionalExpression.Accepts settled words () [] words :=
  accepts_no (looks_startsExpression_other hstarts) (accepts_pure ())

theorem accepts_someExpression (hstarts : StartsExpression words)
    (hvalue : expression.Accepts true words () trees last) : optionalExpression.Accepts settled words () trees last :=
  accepts_yes (looks_startsExpression hstarts) hvalue

def bindingValue : Rule Unit := do
  if ← currentIs .equals <||> currentIs .newSlot then
    advance
    expressionOrTable

theorem accepts_noBindingValue (hhere : isBindingOperator (here words) = false) :
    bindingValue.Accepts settled words () [] words := by
  have hne : here words ≠ .equals ∧ here words ≠ .newSlot := by
    constructor <;> intro hkind <;> rw [hkind] at hhere <;> exact nomatch hhere
  exact accepts_no (looks_orM (Looks.tests (looks_currentIs_other hne.1)) (looks_currentIs_other hne.2)) (accepts_pure ())

theorem accepts_someBindingValue (hsign : isBindingOperator sign.kind = true)
    (hvalue : expressionOrTable.Accepts false words () trees last) :
    bindingValue.Accepts settled (sign :: words) () ([sign.tree] ++ trees) last := by
  simp only [isBindingOperator, List.mem_cons, List.not_mem_nil, or_false, decide_eq_true_eq] at hsign
  have haccepted : sign.kind.isRejected = false := by
    obtain hsign | hsign := hsign <;> rw [hsign] <;> rfl
  refine accepts_yes ?_ (accepts_bind (accepts_advance haccepted) hvalue)
  obtain hsign | hsign := hsign
  · exact looks_orM_true (looks_currentIs hsign)
  · exact looks_orM (Looks.tests (looks_currentIs_other (by rw [here_cons, hsign]; decide))) (looks_currentIs hsign)

def binding : Rule Unit := node .localBinding do
  advance
  bindingValue

theorem accepts_binding (hname : name.kind = .id) (hvalue : bindingValue.Accepts false words () trees last) :
    binding.Accepts true (name :: words) () [.node .localBinding ([name.tree] ++ trees)] last :=
  accepts_named hname hvalue

theorem accepts_lastBinding (hhere : here words = .id) (hbinding : binding.Accepts true words () trees last)
    (hlast : here last ≠ .comma) : (call .localBindings).Accepts settled words () trees last :=
  accepts_call (accepts_yes (looks_currentIs hhere)
    (accepts_end hbinding (accepts_no (looks_eat_other hlast) (accepts_pure ()))))

theorem accepts_moreBindings (hhere : here words = .id) (hbinding : binding.Accepts true words () first (word :: middle))
    (hcomma : word.kind = .comma) (hrest : (call .localBindings).Accepts false middle () rest last) :
    (call .localBindings).Accepts settled words () (first ++ ([word.tree] ++ rest)) last :=
  accepts_call (accepts_yes (looks_currentIs hhere) (accepts_bind hbinding (accepts_taken (accepts_eat hcomma rfl) hrest)))

theorem accepts_headerLocal (hkeyword : keyword.kind = .kwLocal)
    (hbindings : (call .localBindings).Accepts false words () trees last) :
    (localDeclaration false).Accepts true (keyword :: words) ()
      [.node .localDeclaration ([keyword.tree] ++ trees)] last :=
  accepts_node (accepts_bind (accepts_advance (by rw [hkeyword]; rfl)) (accepts_end hbindings (accepts_pure ())))

theorem accepts_localStatement (hkeyword : keyword.kind = .kwLocal)
    (hbindings : (call .localBindings).Accepts false words () first middle) {answer : Bool}
    (hend : (eat .semicolon).Accepts false middle answer second last) :
    (localDeclaration true).Accepts true (keyword :: words) ()
      [.node .localDeclaration ([keyword.tree] ++ (first ++ second))] last := by
  refine accepts_node (accepts_bind (accepts_advance (by rw [hkeyword]; rfl)) (accepts_bind hbindings ?_))
  exact accepts_whole () hend

def forInitial : Rule Unit := do
  if ← currentIs .kwLocal then localDeclaration false else optionalExpression

theorem accepts_forLocal (hhere : here words = .kwLocal)
    (hlocal : (localDeclaration false).Accepts true words () trees last) :
    forInitial.Accepts settled words () trees last :=
  accepts_yes (looks_currentIs hhere) hlocal

theorem accepts_forExpression (hhere : here words ≠ .kwLocal)
    (hvalue : optionalExpression.Accepts true words () trees last) :
    forInitial.Accepts settled words () trees last :=
  accepts_no (looks_currentIs_other hhere) hvalue

/-- A header that has its opening parenthesis. -/
theorem accepts_openHeader {statement : String} (hleft : left.kind = .parenOpen) :
    (openHeader statement).Accepts settled (left :: last) true [left.tree] last :=
  accepts_yes (looks_currentIs hleft) (accepts_whole true (accepts_open (by rw [hleft]; rfl)))

theorem accepts_closeHeader {construct : String} (hright : right.kind = .parenClose) :
    (closeHeader true construct).Accepts settled (right :: last) () [right.tree] last :=
  accepts_close hright rfl

theorem accepts_forStatement {start stop : Word} (hkeyword : keyword.kind = .kwFor) (hleft : left.kind = .parenOpen)
    (hinitial : forInitial.Accepts false words () first (start :: middle)) (hstart : start.kind = .semicolon)
    (hcondition : optionalExpression.Accepts false middle () second (stop :: between)) (hstop : stop.kind = .semicolon)
    (hincrement : optionalExpression.Accepts false between () third (right :: inner)) (hright : right.kind = .parenClose)
    (hstarts : StartsStatement inner) (hbody : (call .statement).Accepts true inner () fourth last) :
    forStatement.Accepts true (keyword :: left :: words) ()
      [.node .forStatement ([keyword.tree] ++ ([left.tree] ++ (first ++ ([start.tree] ++ (second ++ ([stop.tree] ++
        (third ++ ([right.tree] ++ fourth))))))))] last := by
  refine accepts_node (accepts_bind (accepts_advance (by rw [hkeyword]; rfl)) (accepts_bind (accepts_openHeader hleft) ?_))
  refine accepts_branch hinitial (accepts_bind (accepts_expect hstart rfl) (accepts_bind hcondition ?_))
  refine accepts_bind (accepts_expect hstop rfl) (accepts_bind hincrement ?_)
  exact accepts_bind (accepts_closeHeader hright) (accepts_body hstarts hbody)

/-- The header of a `foreach` after its variables, and the body. -/
def foreachRest (opened : Bool) : Rule Unit := do
  if ← expect .kwIn "`in`" then expression
  closeHeader opened "`foreach` header"
  body "`foreach` body"

theorem accepts_foreachRest (hsign : sign.kind = .kwIn)
    (hcollection : expression.Accepts false words () first (right :: middle)) (hright : right.kind = .parenClose)
    (hstarts : StartsStatement middle) (hbody : (call .statement).Accepts true middle () second last) :
    (foreachRest true).Accepts settled (sign :: words) ()
      ([sign.tree] ++ (first ++ ([right.tree] ++ second))) last := by
  refine accepts_taken (accepts_expect hsign rfl) (accepts_bind hcollection ?_)
  exact accepts_bind (accepts_closeHeader hright) (accepts_body hstarts hbody)

theorem accepts_foreachValue (hkeyword : keyword.kind = .kwForeach) (hleft : left.kind = .parenOpen)
    (hname : name.kind = .id) (hhere : here words = .kwIn) (hrest : (foreachRest true).Accepts true words () trees last) :
    foreachStatement.Accepts true (keyword :: left :: name :: words) ()
      [.node .foreachStatement ([keyword.tree] ++ ([left.tree] ++ ([name.tree] ++ trees)))] last := by
  refine accepts_node (accepts_bind (accepts_advance (by rw [hkeyword]; rfl)) (accepts_bind (accepts_openHeader hleft) ?_))
  refine accepts_taken (accepts_expect hname rfl) ?_
  exact accepts_no (looks_eat_other (by rw [hhere]; decide)) hrest

theorem accepts_foreachIndexValue {value : Word} (hkeyword : keyword.kind = .kwForeach) (hleft : left.kind = .parenOpen)
    (hname : name.kind = .id) (hcomma : word.kind = .comma) (hvalue : value.kind = .id)
    (hrest : (foreachRest true).Accepts false words () trees last) :
    foreachStatement.Accepts true (keyword :: left :: name :: word :: value :: words) ()
      [.node .foreachStatement ([keyword.tree] ++ ([left.tree] ++ ([name.tree] ++ ([word.tree] ++ ([value.tree] ++
        trees)))))] last := by
  refine accepts_node (accepts_bind (accepts_advance (by rw [hkeyword]; rfl)) (accepts_bind (accepts_openHeader hleft) ?_))
  refine accepts_taken (accepts_expect hname rfl) (accepts_taken (accepts_eat hcomma rfl) ?_)
  exact accepts_bind (accepts_expect hvalue rfl) hrest

/-! ### Switch -/

theorem accepts_caseEnd (hend : TokenSet.caseBodyEnd.contains (here words) = true) :
    (call .caseStatements).Accepts settled words () [] words := by
  have hwords : words ≠ [] := by
    rintro rfl
    exact absurd hend (by decide)
  have hin := @looks_currentIn words TokenSet.caseBodyEnd
  rw [hend] at hin
  exact accepts_call (accepts_yes (looks_orM (tests_stopped hwords) hin) (accepts_pure ()))

/-- No statement starts where the statements of a case end. -/
theorem not_contains_caseBodyEnd (hstarts : TokenSet.statementFirst.contains kind = true) :
    TokenSet.caseBodyEnd.contains kind = false := by
  cases kind
  all_goals first
    | rfl
    | exact absurd hstarts (by decide)

theorem accepts_caseMore (hstarts : StartsStatement words)
    (hstatement : (call .statement).Accepts true words () first middle)
    (hrest : (call .caseStatements).Accepts false middle () rest last) :
    (call .caseStatements).Accepts settled words () (first ++ rest) last := by
  have hend : TokenSet.caseBodyEnd.contains (here words) = false := not_contains_caseBodyEnd hstarts
  have hin := @looks_currentIn words TokenSet.caseBodyEnd
  rw [hend] at hin
  exact accepts_call (accepts_no (looks_orM (tests_stopped (StartsStatement.ne_nil hstarts)) hin)
    (accepts_bind hstatement hrest))

theorem accepts_caseClause (hkeyword : keyword.kind = .kwCase)
    (hvalue : expression.Accepts false words () first (sign :: middle)) (hsign : sign.kind = .colon)
    (hstatements : (call .caseStatements).Accepts false middle () second last) :
    caseClause.Accepts true (keyword :: words) ()
      [.node .caseStatement ([keyword.tree] ++ (first ++ ([sign.tree] ++ second)))] last := by
  refine accepts_node (accepts_bind (accepts_advance (by rw [hkeyword]; rfl)) (accepts_bind hvalue ?_))
  exact accepts_bind (accepts_expect hsign rfl) hstatements

theorem accepts_defaultClause (hkeyword : keyword.kind = .kwDefault) (hsign : sign.kind = .colon)
    (hstatements : (call .caseStatements).Accepts false words () trees last) :
    defaultClause.Accepts true (keyword :: sign :: words) ()
      [.node .defaultStatement ([keyword.tree] ++ ([sign.tree] ++ trees))] last := by
  refine accepts_node (accepts_bind (accepts_advance (by rw [hkeyword]; rfl)) ?_)
  exact accepts_bind (accepts_expect hsign rfl) hstatements

theorem accepts_switchEnd {seenDefault : Bool} (hhere : here words = .braceClose) :
    (call (.switchClauses seenDefault)).Accepts settled words () [] words := by
  refine accepts_call (accepts_goOn (ne_nil_of_here hhere nofun) (accepts_look looks_current ?_))
  rw [hhere]
  exact accepts_pure ()

theorem accepts_switchCase (hhere : here words = .kwCase) (hclause : caseClause.Accepts true words () first middle)
    (hrest : (call (.switchClauses false)).Accepts false middle () rest last) :
    (call (.switchClauses false)).Accepts settled words () (first ++ rest) last := by
  refine accepts_call (accepts_goOn (ne_nil_of_here hhere nofun) (accepts_look looks_current ?_))
  rw [hhere]
  exact accepts_bind hclause hrest

theorem accepts_switchDefault (hhere : here words = .kwDefault)
    (hclause : defaultClause.Accepts true words () trees last) (hlast : here last = .braceClose) :
    (call (.switchClauses false)).Accepts settled words () trees last := by
  refine accepts_call (accepts_goOn (ne_nil_of_here hhere nofun) (accepts_look looks_current ?_))
  rw [hhere]
  exact accepts_end hclause (accepts_switchEnd hlast)

theorem accepts_switchStatement (hkeyword : keyword.kind = .kwSwitch)
    (hheader : ∀ construct, (parenHeader construct).Accepts false words () first (left :: middle))
    (hleft : left.kind = .braceOpen)
    (hclauses : (call (.switchClauses false)).Accepts false middle () second (right :: last))
    (hright : right.kind = .braceClose) :
    switchStatement.Accepts true (keyword :: words) ()
      [.node .switchStatement ([keyword.tree] ++ (first ++ ([left.tree] ++ (second ++ [right.tree]))))] last := by
  refine accepts_node (accepts_bind (accepts_advance (by rw [hkeyword]; rfl)) (accepts_bind (hheader _) ?_))
  exact accepts_yes (looks_currentIs hleft) (accepts_between (by rw [hleft]; rfl) hclauses hright rfl)

/-! ### Jumps -/

theorem accepts_jump {nodeKind : Kind} {after : String} (hkeyword : keyword.kind.isRejected = false)
    (hsemicolon : semicolon.kind = .semicolon) :
    (jumpStatement nodeKind after).Accepts true (keyword :: semicolon :: last) ()
      [.node nodeKind ([keyword.tree] ++ [semicolon.tree])] last := by
  refine accepts_node (accepts_bind (accepts_advance hkeyword) ?_)
  exact accepts_end (accepts_eat hsemicolon rfl) (accepts_pure ())

def returnValue : Rule Unit := do
  if ← startsExpressionOrTable then expressionOrTable

theorem accepts_noReturnValue (hstarts : ¬StartsExpression words) (hhere : here words ≠ .braceOpen) :
    returnValue.Accepts settled words () [] words :=
  accepts_no (looks_startsExpressionOrTable_other hstarts hhere) (accepts_pure ())

theorem accepts_someReturnValue (hstarts : StartsExpression words ∨ here words = .braceOpen)
    (hvalue : expressionOrTable.Accepts true words () trees last) : returnValue.Accepts settled words () trees last :=
  accepts_yes (looks_startsExpressionOrTable hstarts) hvalue

theorem accepts_returnStatement (hkeyword : keyword.kind = .kwReturn)
    (hvalue : returnValue.Accepts false words () first middle) {answer : Bool}
    (hend : (eat .semicolon).Accepts false middle answer second last) :
    returnStatement.Accepts true (keyword :: words) ()
      [.node .returnStatement ([keyword.tree] ++ (first ++ second))] last := by
  refine accepts_node (accepts_bind (accepts_advance (by rw [hkeyword]; rfl)) ?_)
  exact accepts_option hvalue (accepts_whole () hend)

def yieldValue : Rule Unit := do
  if ← startsExpression <&&> (not <$> .ofStep .afterLineBreak) then expression

theorem looks_valueFollows (hstarts : StartsExpression words) {broken : Bool} (hbreak : AfterBreak words ↔ broken = true) :
    (startsExpression <&&> (not <$> ofStep .afterLineBreak)).Looks words (!broken) := by
  obtain ⟨word, rest, rfl⟩ := List.exists_cons_of_ne_nil hstarts.ne_nil
  have hbroken : word.afterBreak = broken := by
    rw [Bool.eq_iff_iff, ← hbreak]
    simp [AfterBreak]
  exact hbroken ▸ looks_andM (looks_startsExpression hstarts) (looks_map not looks_afterLineBreak)

theorem accepts_noYieldValue (hnone : ¬StartsExpression words ∨ AfterBreak words) :
    yieldValue.Accepts settled words () [] words := by
  refine accepts_no ?_ (accepts_pure ())
  by_cases hstarts : StartsExpression words
  · have hbreak : AfterBreak words := hnone.resolve_left (not_not_intro hstarts)
    exact looks_valueFollows hstarts (iff_of_true hbreak rfl)
  · exact looks_andM_false (looks_startsExpression_other hstarts)

theorem accepts_someYieldValue (hstarts : StartsExpression words) (hbreak : ¬AfterBreak words)
    (hvalue : expression.Accepts true words () trees last) : yieldValue.Accepts settled words () trees last :=
  accepts_yes (looks_valueFollows hstarts (iff_of_false hbreak Bool.false_ne_true)) hvalue

theorem accepts_yieldStatement (hkeyword : keyword.kind = .kwYield)
    (hvalue : yieldValue.Accepts false words () first middle)
    (hend : ∀ what, (expectTerminator what).Accepts false middle () second last) :
    yieldStatement.Accepts true (keyword :: words) ()
      [.node .yieldStatement ([keyword.tree] ++ (first ++ second))] last := by
  refine accepts_node (accepts_bind (accepts_advance (by rw [hkeyword]; rfl)) ?_)
  exact accepts_option hvalue (hend _)

theorem accepts_throwStatement (hkeyword : keyword.kind = .kwThrow)
    (hvalue : expression.Accepts false words () first middle) {answer : Bool}
    (hend : (eat .semicolon).Accepts false middle answer second last) :
    throwStatement.Accepts true (keyword :: words) ()
      [.node .throwStatement ([keyword.tree] ++ (first ++ second))] last := by
  refine accepts_node (accepts_bind (accepts_advance (by rw [hkeyword]; rfl)) ?_)
  exact accepts_bind hvalue (accepts_whole () hend)

/-! ### Declarations and errors -/

theorem accepts_varStatement (hkeyword : keyword.kind = .kwVar) (hname : name.kind = .id) (hsign : sign.kind = .equals)
    (hvalue : expressionOrTable.Accepts false words () first middle) {answer : Bool}
    (hend : (eat .semicolon).Accepts false middle answer second last) :
    varStatement.Accepts true (keyword :: name :: sign :: words) ()
      [.node .varStatement ([keyword.tree] ++ ([name.tree] ++ ([sign.tree] ++ (first ++ second))))] last := by
  refine accepts_node (accepts_bind (accepts_advance (by rw [hkeyword]; rfl)) ?_)
  refine accepts_taken (accepts_expect hname rfl) (accepts_taken (accepts_expect hsign rfl) ?_)
  exact accepts_bind hvalue (accepts_whole () hend)

def catchClause : Rule Unit := node .catchStatement do
  advance
  if ← currentIs .parenOpen then
    openDelimiter .parenOpen
    let _ ← expect .id "exception variable"
    closeDelimiter .parenClose "`catch` binding"
  else
    let _ ← expect .parenOpen "`(` after `catch`"
  body "`catch` body"

theorem accepts_catchClause (hkeyword : keyword.kind = .kwCatch) (hleft : left.kind = .parenOpen)
    (hname : name.kind = .id) (hright : right.kind = .parenClose) (hstarts : StartsStatement words)
    (hbody : (call .statement).Accepts true words () trees last) :
    catchClause.Accepts true (keyword :: left :: name :: right :: words) ()
      [.node .catchStatement ([keyword.tree] ++ ([left.tree] ++ ([name.tree] ++ ([right.tree] ++ trees))))] last := by
  refine accepts_node (accepts_bind (accepts_advance (by rw [hkeyword]; rfl)) ?_)
  refine accepts_yes (looks_currentIs hleft) (accepts_bind (accepts_open (by rw [hleft]; rfl)) ?_)
  exact accepts_bind (accepts_expect hname rfl) (accepts_bind (accepts_close hright rfl) (accepts_body hstarts hbody))

theorem accepts_tryStatement (hkeyword : keyword.kind = .kwTry) (hstarts : StartsStatement words)
    (hbody : (call .statement).Accepts true words () first middle) (hhere : here middle = .kwCatch)
    (hcatch : catchClause.Accepts true middle () second last) :
    tryStatement.Accepts true (keyword :: words) ()
      [.node .tryStatement ([keyword.tree] ++ (first ++ second))] last := by
  refine accepts_node (accepts_bind (accepts_advance (by rw [hkeyword]; rfl)) ?_)
  exact accepts_bind (accepts_body hstarts hbody) (accepts_yes (looks_currentIs hhere) hcatch)

theorem accepts_expressionStatement (hvalue : expression.Accepts true words () first middle) {answer : Bool}
    (hend : (eat .semicolon).Accepts false middle answer second last) :
    expressionStatement.Accepts true words () [.node .expressionStatement (first ++ second)] last :=
  accepts_node (accepts_bind hvalue (accepts_whole () hend))

/-! ### All statements -/

theorem accepts_statement (hstarts : StartsStatement words) (hgarbage : here words ≠ .garbage)
    (hrule : knownStatement.Accepts true words () trees last) :
    (call .statement).Accepts settled words () trees last := by
  have hascend : (ofStep .ascend).Accepts false last () [] last := fun view hwords _ =>
    ⟨view, .of_read fun _ => by rw [read_ofStep, Step.read], hwords ▸ .refl view⟩
  have hdescend : (ofStep .descend).Tests words true := fun view _ =>
    .inl (.of_read fun _ => by rw [read_ofStep, Step.read])
  refine accepts_call (accepts_test hdescend ?_)
  rw [if_pos rfl]
  refine accepts_no (looks_currentIs_other hgarbage) (accepts_yes (looks_startsStatement hstarts) ?_)
  exact accepts_end hrule hascend

/-- A statement that no keyword announces. -/
theorem accepts_knownExpression (hstarts : StartsExpression words)
    (hfunction : here words = .kwFunction → here words.tail ≠ .id)
    (hstatement : expressionStatement.Accepts true words () trees last) :
    knownStatement.Accepts settled words () trees last := by
  refine accepts_look looks_current ?_
  have hne {kind : Kind} (hhere : here words = kind) (hkind : TokenSet.expressionFirst.contains kind = false) : False :=
    hstarts.here_ne hkind hhere
  split
  case h_15 hhere =>
    refine accepts_look looks_next ?_
    rwa [if_neg (by simpa using hfunction hhere)]
  case h_21 => exact hstatement
  all_goals exact (hne ‹_› (by decide)).elim

/-- Where nothing is left there is no statement, and nothing is wrong with that. -/
theorem gives_noStatement {view : View} (hsettled : view.Settled) (hwords : view.words = []) :
    (call .statement).Gives view () view := by
  have hstep {α : Type} {step : Step α} {answer : α} (hread : step.read view = some (answer, view)) :
      (ofStep step).Gives view answer view := .of_read fun _ => by rw [read_ofStep, hread]
  have hlook {α : Type} {rule : Rule α} {answer : α} (hrule : rule.Looks [] answer) : rule.Gives view answer view := by
    have hgives := hrule view hwords
    rwa [hsettled] at hgives
  have hstopped : stopped.Gives view true view :=
    hstep (by rw [Step.read, (View.ahead_eq_nil_iff hsettled).mpr hwords]; rfl)
  have hrecover : recoverStatement.Gives view () view := hstopped.bind (.pure () view)
  have hgarbage : (currentIs .garbage).Gives view false view := hlook (looks_currentIs_other (by decide))
  have hstarts : startsStatement.Gives view false view :=
    hlook (looks_startsStatement_other (by rw [StartsStatement]; decide))
  have hinner : (do
      if ← currentIs .garbage then advanceGarbage
      else if ← startsStatement then knownStatement
      else recoverStatement
      .ofStep .ascend : Rule Unit).Gives view () view :=
    hgarbage.bind (hstarts.bind (hrecover.bind (hstep rfl)))
  have hdescend : (ofStep .descend).Gives view true view := hstep rfl
  exact .call (hdescend.bind hinner)

/-- Behind the last statement only blanks are left. -/
theorem accepts_scriptEnd : (call .script).Accepts settled [] () [] [] := by
  have hend {view : View} (hahead : view.ahead.isEmpty = true) : (call .script).Gives view () view := by
    have hstopped : stopped.Gives view true view := .of_read fun _ => by rw [read_stopped, hahead]
    exact .call (hstopped.bind (.pure () view))
  intro view hwords _
  cases hahead : view.ahead.isEmpty with
  | true => exact ⟨view, hend hahead, hwords ▸ .refl view⟩
  | false =>
    have hstopped : stopped.Gives view false view := .of_read fun _ => by rw [read_stopped, hahead]
    have hclose : (currentIs .braceClose).Gives view false view.passTrivia :=
      looks_currentIs_other (by rw [hwords]; exact nofun) view rfl
    have hpassed : view.passTrivia.words = [] := view.words_passTrivia.trans hwords
    have hempty : view.passTrivia.ahead.isEmpty = true := by
      rw [(View.ahead_eq_nil_iff view.settled_passTrivia).mpr hpassed]
      rfl
    refine ⟨view.passTrivia, .call (hstopped.bind (hclose.bind ?_)), hwords ▸ .passTrivia view⟩
    exact (gives_noStatement view.settled_passTrivia hpassed).bind (hend hempty)

theorem accepts_scriptMore (hstarts : StartsStatement words)
    (hstatement : (call .statement).Accepts true words () first middle)
    (hrest : (call .script).Accepts false middle () rest last) :
    (call .script).Accepts settled words () (first ++ rest) last := by
  refine accepts_call (accepts_goOn (StartsStatement.ne_nil hstarts) ?_)
  refine accepts_no (looks_currentIs_other (StartsStatement.here_ne hstarts (by decide))) ?_
  exact accepts_bind hstatement hrest

end Squirrel.Grammar

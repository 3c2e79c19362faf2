import Squirrel.Proofs.Grammar.Progress.Expression

/-!
# Where statements lead

Every known statement starts by passing a token, or with an expression that does.
-/

namespace Squirrel

namespace Grammar

open Rule

variable {room weight : Nat} {standing : Standing} {ended : Unit → Standing → Prop}

/-! ### Blocks -/

theorem leads_block (hready : standing.Ready room weight) (hended : ∀ next, standing.Onward next → ended () next) :
    block.Leads room weight standing ended :=
  leads_node (leads_delimited rfl 12 rfl (by decide) (by decide) hready fun next _ => hended next (by omega))

theorem leads_blockStatements (hopens : standing.Opens room weight 3)
    (hlooks : standing.spent + 6 * min standing.slack standing.raw ≤ room) :
    blockStatements.Leads room weight standing fun _ => standing.Costs (5 * min standing.slack standing.raw) 12 := by
  refine leads_if (leads_orM (leads_stopped (fun _ => leads_pure (by omega)) fun _ _ => ?_))
  refine leads_currentIs (by omega) (fun _ next _ => leads_pure (by omega)) fun _ next _ => .bind ?_
  refine leads_callStatement (by omega) fun last _ _ hadvanced => leads_callList rfl 12 rfl ?_ fun final _ => by omega
  by_cases hleft : 0 < next.left
  · have hmoved := hadvanced hleft (by omega)
    omega
  · omega

/-! ### Conditions and loops -/

theorem leads_parenHeader {construct : String} (hready : standing.Ready room weight) (hlooks : standing.spent + 4 ≤ room)
    (hweight : 4 * (standing.raw + standing.slack) + 1 < weight) (hended : ∀ next, standing.Costs 4 2 next → ended () next) :
    (parenHeader construct).Leads room weight standing ended := by
  refine leads_if (leads_currentIs (by omega) (fun _ next _ => ?_) fun _ next _ => leads_then (next.Costs 1 0) ?_ ?_)
  · refine .bind (leads_openDelimiter fun inner _ => .bind (leads_callExpression (by omega) fun last _ _ _ => ?_))
    exact leads_closeDelimiter (by omega) (by omega) fun final _ _ => hended final (by omega)
  · exact leads_either (leads_expect (by omega) (fun _ last _ => by omega) fun _ last _ => by omega)
  · intro last _
    refine leads_if (leads_currentIn (by omega) (fun _ there _ => .bind ?_) fun _ there _ => leads_pure (hended there (by omega)))
    refine leads_callExpression (by omega) fun inner _ _ _ => leads_given ?_
    refine leads_expect (by omega) (fun _ final _ => leads_pure ?_) fun _ final _ => leads_pure ?_
    · exact hended final (by omega)
    · exact hended final (by omega)

theorem leads_ifStatement (hready : standing.Ready room weight) (hsettled : standing.raw = standing.left)
    (hended : ∀ next, standing.Onward next → ended () next) : ifStatement.Leads room weight standing ended := by
  refine leads_node (.bind (leads_advance hsettled fun next _ => leads_ifElse (next.Costs 2 2) ?_ fun last _ => .bind ?_))
  · refine leads_currentIs (by omega) (fun _ last _ => leads_parenthesized (by omega) fun there _ => by omega) fun _ last _ => ?_
    exact leads_either (leads_expect (by omega) (fun _ there _ => by omega) fun _ there _ => by omega)
  · refine leads_body (by omega) (by omega) (by omega) fun there _ _ => leads_if ?_
    refine leads_currentIs (by omega) (fun _ final _ => ?_) fun _ final _ => leads_pure (hended final (by omega))
    refine leads_node (.bind (leads_advance (by omega) fun past _ => ?_))
    exact leads_body (by omega) (by omega) (by omega) fun done _ _ => hended done (by omega)

theorem leads_whileStatement (hready : standing.Ready room weight) (hsettled : standing.raw = standing.left)
    (hended : ∀ next, standing.Onward next → ended () next) : whileStatement.Leads room weight standing ended := by
  refine leads_node (.bind (leads_advance hsettled fun next _ => .bind ?_))
  refine leads_parenHeader (by omega) (by omega) (by omega) fun last _ => leads_if ?_
  refine leads_currentIn (by omega) (fun _ there _ => ?_) fun _ there _ => leads_pure (hended there (by omega))
  exact leads_callStatement (by omega) fun final _ _ _ => hended final (by omega)

/-- The semicolon that may end a statement. -/
theorem leads_semicolon {before : Standing} (hlater : before.Onward standing)
    (hlooks : standing.spent < room) (hended : ∀ next, before.Onward next → ended () next) :
    (eat .semicolon >>= fun _ => (pure () : Rule Unit)).Leads room weight standing ended := by
  refine leads_given (leads_eat hlooks (fun _ next _ => leads_pure ?_) fun _ next _ => leads_pure ?_)
  · exact hended next (by omega)
  · exact hended next (by omega)

theorem leads_doWhileStatement (hready : standing.Ready room weight) (hsettled : standing.raw = standing.left)
    (hended : ∀ next, standing.Onward next → ended () next) : doWhileStatement.Leads room weight standing ended := by
  refine leads_node (.bind (leads_advance hsettled fun next _ => .bind ?_))
  refine leads_body (by omega) (by omega) (by omega) fun last _ _ => leads_ifSo (next.Costs 8 8) ?_ fun there _ => ?_
  · refine leads_expect (by omega) (fun _ there _ => ?_) fun _ there _ => by omega
    exact leads_parenHeader (by omega) (by omega) (by omega) fun final _ => by omega
  · exact leads_semicolon (by omega) (by omega) hended

theorem leads_openHeader {statement : String} {yes no : Standing → Prop} (hlooks : standing.spent + 2 ≤ room)
    (hyes : ∀ next, standing.Moved next → yes next) (hno : ∀ next, standing.Looked 2 next → no next) :
    (openHeader statement).Leads room weight standing (Answers yes no) := by
  refine leads_if (leads_currentIs (by omega) (fun _ next _ => .bind ?_) fun hother next hnext => leads_given ?_)
  · exact leads_openDelimiter fun last _ => leads_pure (hyes last (by omega))
  · refine leads_expect (by omega) (fun hopen => absurd (hnext.here_eq ▸ hopen) hother) fun _ last hlast => ?_
    exact leads_pure (hno last (hnext.trans hlast))

theorem leads_closeHeader {opened : Bool} {construct : String} (hplaced : standing.left ≤ standing.raw)
    (hlooks : standing.spent + 2 ≤ room)
    (hended : ∀ next, standing.Later next → next.spent ≤ max standing.price standing.spent + 2 → ended () next) :
    (closeHeader opened construct).Leads room weight standing ended := by
  cases opened with
  | true => exact leads_closeDelimiter hplaced hlooks hended
  | false =>
    refine leads_given (leads_expect (by omega) (fun _ next _ => leads_pure ?_) fun _ next _ => leads_pure ?_)
    · exact hended next (by omega) (by omega)
    · exact hended next (by omega) (by omega)

theorem leads_optionalExpression (hready : standing.Ready room weight) (hlooks : standing.spent < room)
    (hweight : 4 * (standing.raw + standing.slack) + 1 < weight)
    (hended : ∀ next, standing.Later next → next.spent ≤ standing.spent + 1 → ended () next) :
    optionalExpression.Leads room weight standing ended := by
  refine leads_if (leads_currentIn hlooks (fun _ next _ => ?_) fun _ next _ => leads_pure (hended next (by omega) (by omega)))
  exact leads_callExpression (by omega) fun last _ _ _ => hended last (by omega) (by omega)

theorem leads_callLocalBindings (hready : standing.Ready room weight) (hlooks : standing.spent < room)
    (hweight : 4 * (standing.raw + standing.slack) + 3 < weight) (hended : ∀ next, standing.Costs 1 3 next → ended () next) :
    (call .localBindings).Leads room weight standing ended := by
  refine leads_call ⟨by omega, hlooks, by simp⟩ hweight fun next hnext => hended next ⟨hnext.1, ?_⟩
  exact hnext.2.1

theorem leads_localBindings (hopens : standing.Opens room weight 3) (hlooks : standing.spent < room) :
    localBindings.Leads room weight standing fun _ => standing.Costs 1 3 := by
  refine leads_if (leads_currentIs hlooks (fun _ next _ => leads_then (standing.Passes 2) ?_ fun last _ => leads_if ?_) ?_)
  · refine leads_node (.bind (leads_advance (by omega) fun name _ => leads_if (leads_orM ?_)))
    have hvalue {last : Standing} (hlast : standing.Onward last) (hsettled : last.raw = last.left) : (do
        advance
        expressionOrTable : Rule Unit).Leads room weight last fun _ => standing.Passes 2 :=
      .bind (leads_advance hsettled fun there _ => leads_callExpression (by omega) fun final _ _ _ => by omega)
    refine leads_currentIs (by omega) (fun _ last _ => hvalue (by omega) (by omega)) fun _ last _ => ?_
    exact leads_currentIs (by omega) (fun _ there _ => hvalue (by omega) (by omega)) fun _ there _ => leads_pure (by omega)
  · refine leads_eat (by omega) (fun _ there _ => ?_) fun _ there _ => leads_pure (by omega)
    exact leads_callLocalBindings (by omega) (by omega) (by omega) fun final _ => by omega
  · exact fun _ next _ => leads_reportHere fun last _ => by omega

theorem leads_localDeclaration {isStatement : Bool} (hready : standing.Ready room weight)
    (hsettled : standing.raw = standing.left) (hended : ∀ next, standing.Passes 4 next → ended () next) :
    (localDeclaration isStatement).Leads room weight standing ended := by
  refine leads_node (.bind (leads_advance hsettled fun next _ => .bind ?_))
  refine leads_callLocalBindings (by omega) (by omega) (by omega) fun last _ => ?_
  cases isStatement with
  | false => exact leads_pure (hended last (by omega))
  | true =>
    refine leads_asked (standing.Passes 4) ?_ fun _ there hthere => leads_pure (hended there hthere)
    exact leads_eat (by omega) (fun _ there _ => by omega) fun _ there _ => by omega

theorem leads_forStatement (hready : standing.Ready room weight) (hsettled : standing.raw = standing.left)
    (hended : ∀ next, standing.Onward next → ended () next) : forStatement.Leads room weight standing ended := by
  refine leads_node (.bind (leads_advance hsettled fun next _ => leads_asked (next.Costs 2 0) ?_ fun opened header _ => ?_))
  · exact leads_openHeader (by omega) (fun last _ => by omega) fun last _ => by omega
  refine leads_ifElse (next.Costs 4 5) ?_ fun first _ => leads_asked (next.Costs 5 6) ?_ fun _ second _ => .bind ?_
  · refine leads_currentIs (by omega) (fun _ there _ => ?_) fun _ there _ => ?_
    · exact leads_localDeclaration (by omega) (by omega) fun final _ => by omega
    · exact leads_optionalExpression (by omega) (by omega) (by omega) fun final _ _ => by omega
  · exact leads_expect (by omega) (fun _ there _ => by omega) fun _ there _ => by omega
  refine leads_optionalExpression (by omega) (by omega) (by omega) fun condition _ _ => leads_asked (next.Costs 7 8) ?_ ?_
  · exact leads_expect (by omega) (fun _ there _ => by omega) fun _ there _ => by omega
  intro _ third _
  refine .bind (leads_optionalExpression (by omega) (by omega) (by omega) fun step _ _ => .bind ?_)
  refine leads_closeHeader (by omega) (by omega) fun closed _ _ => ?_
  exact leads_body (by omega) (by omega) (by omega) fun final _ _ => hended final (by omega)

theorem leads_foreachStatement (hready : standing.Ready room weight) (hsettled : standing.raw = standing.left)
    (hended : ∀ next, standing.Onward next → ended () next) : foreachStatement.Leads room weight standing ended := by
  refine leads_node (.bind (leads_advance hsettled fun next _ => leads_asked (next.Costs 2 0) ?_ fun opened header _ => ?_))
  · exact leads_openHeader (by omega) (fun last _ => by omega) fun last _ => by omega
  have hrest {last : Standing} (hlast : next.Costs 4 2 last) : (do
      if ← expect .kwIn "`in`" then expression
      closeHeader opened "`foreach` header"
      body "`foreach` body" : Rule Unit).Leads room weight last ended := by
    refine leads_ifSo (next.Costs 5 4) ?_ fun there _ => .bind (leads_closeHeader (by omega) (by omega) fun closed _ _ => ?_)
    · refine leads_expect (by omega) (fun _ there _ => ?_) fun _ there _ => by omega
      exact leads_callExpression (by omega) fun final _ _ _ => by omega
    · exact leads_body (by omega) (by omega) (by omega) fun final _ _ => hended final (by omega)
  refine leads_if (leads_expect (by omega) (fun _ last _ => leads_if ?_) fun _ last _ => hrest (by omega))
  refine leads_eat (by omega) (fun _ there _ => leads_asked (next.Costs 3 1) ?_ fun _ value _ => hrest (by omega)) fun _ there _ =>
    hrest (by omega)
  exact leads_expect (by omega) (fun _ value _ => by omega) fun _ value _ => by omega

/-! ### Switch -/

theorem leads_caseStatements (hopens : standing.Opens room weight 3)
    (hlooks : standing.spent + 6 * min standing.slack standing.raw ≤ room) :
    caseStatements.Leads room weight standing fun _ => standing.Costs (5 * min standing.slack standing.raw) 12 := by
  refine leads_if (leads_orM (leads_stopped (fun _ => leads_pure (by omega)) fun _ _ => ?_))
  refine leads_currentIn (by omega) (fun _ next _ => leads_pure (by omega)) fun _ next _ => .bind ?_
  refine leads_callStatement (by omega) fun last _ _ hadvanced => leads_callList rfl 12 rfl ?_ fun final _ => by omega
  by_cases hleft : 0 < next.left
  · have hmoved := hadvanced hleft (by omega)
    omega
  · omega

theorem leads_caseClause (hready : standing.Ready room weight) (hsettled : standing.raw = standing.left)
    (hended : ∀ next, standing.Passes 12 next → ended () next) : caseClause.Leads room weight standing ended := by
  refine leads_node (.bind (leads_advance hsettled fun next _ => .bind (leads_callExpression (by omega) fun value _ _ _ => ?_)))
  refine leads_asked (next.Costs 1 1) ?_ fun _ last _ => leads_callList rfl 12 rfl (by omega) fun final _ => hended final (by omega)
  exact leads_expect (by omega) (fun _ last _ => by omega) fun _ last _ => by omega

theorem leads_defaultClause (hready : standing.Ready room weight) (hsettled : standing.raw = standing.left)
    (hended : ∀ next, standing.Passes 12 next → ended () next) : defaultClause.Leads room weight standing ended := by
  refine leads_node (.bind (leads_advance hsettled fun next _ => leads_asked (next.Costs 1 1) ?_ fun _ last _ => ?_))
  · exact leads_expect (by omega) (fun _ last _ => by omega) fun _ last _ => by omega
  · exact leads_callList rfl 12 rfl (by omega) fun final _ => hended final (by omega)

theorem contains_caseBodyEnd {kind : Kind} (hend : TokenSet.caseBodyEnd.contains kind = true) :
    kind = .braceClose ∨ kind = .kwCase ∨ kind = .kwDefault := by
  revert hend
  cases kind <;> decide

theorem leads_switchClauses {seenDefault : Bool} (hopens : standing.Opens room weight 3)
    (hlooks : standing.spent + 6 * min standing.slack standing.raw ≤ room) :
    (switchClauses seenDefault).Leads room weight standing fun _ =>
      standing.Costs (5 * min standing.slack standing.raw) 18 := by
  refine leads_if (leads_stopped (fun _ => leads_pure (by omega)) fun _ _ => .bind ?_)
  refine leads_current (by omega) fun next hnext => ?_
  have hmore {flag : Bool} {last : Standing} (hlast : standing.Passes 12 last ∨
      standing.Later last ∧ last.spent ≤ standing.spent + 3 ∧ last.raw = 0) :
      (call (.switchClauses flag)).Leads room weight last fun _ =>
        standing.Costs (5 * min standing.slack standing.raw) 18 :=
    leads_callList rfl 18 rfl (by omega) fun there _ => by omega
  split
  · exact leads_pure (by omega)
  · refine leads_ite (fun _ => .bind (leads_reportHere fun last _ => .bind ?_)) fun _ => .bind ?_
    · exact leads_caseClause (by omega) (by omega) fun there _ => hmore (by omega)
    · exact leads_caseClause (by omega) (by omega) fun there _ => hmore (by omega)
  · refine leads_ite (fun _ => .bind (leads_reportHere fun last _ => .bind ?_)) fun _ => .bind ?_
    · exact leads_defaultClause (by omega) (by omega) fun there _ => hmore (by omega)
    · exact leads_defaultClause (by omega) (by omega) fun there _ => hmore (by omega)
  · next hclose hcase hdefault =>
    refine .bind (leads_recover (by omega) (by omega) (by omega) (fun last hlast hends => hmore (.inr ?_)) fun last _ => hmore (by omega))
    obtain hend | hend := hends
    · rw [hnext.here_eq] at hend
      exact absurd (contains_caseBodyEnd hend) (by simp_all)
    · omega

theorem leads_switchStatement (hready : standing.Ready room weight) (hsettled : standing.raw = standing.left)
    (hended : ∀ next, standing.Onward next → ended () next) : switchStatement.Leads room weight standing ended := by
  refine leads_node (.bind (leads_advance hsettled fun next _ => .bind ?_))
  refine leads_parenHeader (by omega) (by omega) (by omega) fun last _ => leads_if ?_
  refine leads_currentIs (by omega) (fun _ there _ => ?_) fun _ there _ => leads_asked next.Later ?_ ?_
  · exact leads_delimited rfl 18 rfl (by decide) (by decide) (by omega) fun final _ => hended final (by omega)
  · exact leads_expect (by omega) (fun _ final _ => by omega) fun _ final _ => by omega
  · exact fun _ final _ => leads_pure (hended final (by omega))

/-! ### Jumps -/

theorem leads_jumpStatement {kind : Kind} {keyword : String} (hready : standing.Ready room weight)
    (hsettled : standing.raw = standing.left) (hended : ∀ next, standing.Onward next → ended () next) :
    (jumpStatement kind keyword).Leads room weight standing ended := by
  refine leads_node (.bind (leads_advance hsettled fun next _ => ?_))
  exact leads_expectSemicolon (by omega) (by omega) fun last _ => hended last (by omega)

theorem leads_returnStatement (hready : standing.Ready room weight) (hsettled : standing.raw = standing.left)
    (hended : ∀ next, standing.Onward next → ended () next) : returnStatement.Leads room weight standing ended := by
  refine leads_node (.bind (leads_advance hsettled fun next _ => leads_ifSo (next.Costs 2 0) ?_ fun last _ => ?_))
  · refine leads_startsExpressionOrTable (by omega) (fun _ last _ => ?_) fun last _ => by omega
    exact leads_callExpression (by omega) fun there _ _ _ => by omega
  · exact leads_semicolon (by omega) (by omega) hended

theorem leads_yieldStatement (hready : standing.Ready room weight) (hsettled : standing.raw = standing.left)
    (hended : ∀ next, standing.Onward next → ended () next) : yieldStatement.Leads room weight standing ended := by
  refine leads_node (.bind (leads_advance hsettled fun next _ => leads_ifSo (next.Costs 1 0) ?_ fun last _ => ?_))
  · refine leads_andM (leads_currentIn (by omega) (fun _ last _ => leads_not ?_) fun _ last _ => by omega)
    refine leads_ofStep trivial fun answer there (hthere : last.Looked 0 there) => ?_
    cases answer with
    | true => exact (by omega : next.Costs 1 0 there)
    | false => exact leads_callExpression (by omega) fun final _ _ _ => by omega
  · exact leads_expectTerminator (by omega) (by omega) fun final _ => hended final (by omega)

theorem leads_throwStatement (hready : standing.Ready room weight) (hsettled : standing.raw = standing.left)
    (hended : ∀ next, standing.Onward next → ended () next) : throwStatement.Leads room weight standing ended := by
  refine leads_node (.bind (leads_advance hsettled fun next _ => .bind (leads_callExpression (by omega) fun last _ _ _ => ?_)))
  exact leads_semicolon (by omega) (by omega) hended

/-! ### Declarations and errors -/

theorem leads_varStatement (hready : standing.Ready room weight) (hsettled : standing.raw = standing.left)
    (hended : ∀ next, standing.Onward next → ended () next) : varStatement.Leads room weight standing ended := by
  refine leads_node (.bind (leads_advance hsettled fun next _ => leads_if ?_))
  have hlast {last : Standing} (hlast : next.Costs 1 1 last) :
      (eat .semicolon >>= fun _ => (pure () : Rule Unit)).Leads room weight last ended :=
    leads_semicolon (by omega) (by omega) hended
  refine leads_expect (by omega) (fun _ last _ => leads_ifSo (next.Costs 1 1) ?_ fun there _ => hlast (by omega)) fun _ last _ =>
    hlast (by omega)
  refine leads_expect (by omega) (fun _ there _ => ?_) fun _ there _ => by omega
  exact leads_callExpression (by omega) fun final _ _ _ => by omega

theorem leads_tryStatement (hready : standing.Ready room weight) (hsettled : standing.raw = standing.left)
    (hended : ∀ next, standing.Onward next → ended () next) : tryStatement.Leads room weight standing ended := by
  refine leads_node (.bind (leads_advance hsettled fun next _ => .bind ?_))
  refine leads_body (by omega) (by omega) (by omega) fun last _ _ => leads_if ?_
  refine leads_currentIs (by omega) (fun _ there _ => leads_node ?_) fun _ there _ => leads_asked next.Later ?_ ?_
  · refine .bind (leads_advance (by omega) fun inner _ => leads_if ?_)
    have hcatch {final : Standing} (hfinal : inner.Costs 4 4 final) : (body "`catch` body").Leads room weight final ended :=
      leads_body (by omega) (by omega) (by omega) fun done _ _ => hended done (by omega)
    refine leads_currentIs (by omega) (fun _ header _ => .bind ?_) fun _ header _ => leads_asked (inner.Costs 4 4) ?_ ?_
    · refine leads_openDelimiter fun opened _ => leads_asked (inner.Costs 1 1) ?_ fun _ name _ => .bind ?_
      · exact leads_expect (by omega) (fun _ name _ => by omega) fun _ name _ => by omega
      · exact leads_closeDelimiter (by omega) (by omega) fun closed _ _ => hcatch (by omega)
    · exact leads_expect (by omega) (fun _ final _ => by omega) fun _ final _ => by omega
    · exact fun _ final hfinal => hcatch hfinal
  · exact leads_expect (by omega) (fun _ final _ => by omega) fun _ final _ => by omega
  · exact fun _ final _ => leads_pure (hended final (by omega))

theorem leads_expressionStatement (hready : standing.Ready room weight) (hlooks : standing.spent < room)
    (hweight : 4 * (standing.raw + standing.slack) + 1 < weight)
    (hended : ∀ next, standing.Later next → (standing.slack = 1 → MeetsOperand standing → standing.Advanced next) →
      ended () next) : expressionStatement.Leads room weight standing ended := by
  refine leads_node (.bind (leads_callExpression (by omega) fun next _ _ hadvanced => leads_asked next.Later ?_ ?_))
  · exact leads_eat (by omega) (fun _ last _ => by omega) fun _ last _ => by omega
  · refine fun _ last _ => leads_pure (hended last (by omega) fun hslack hstarts => ?_)
    have hmoved := hadvanced hslack hstarts
    omega

/-! ### All statements -/

/-- The keywords and the signs of statements that are no expression. -/
def knownStarts : List Kind :=
  [.braceOpen, .semicolon, .kwIf, .kwWhile, .kwDo, .kwSwitch, .kwFor, .kwForeach, .kwBreak, .kwContinue, .kwReturn,
    .kwYield, .kwLocal, .kwVar, .kwClass, .kwTry, .kwThrow, .kwConst, .kwEnum]

theorem contains_expressionFirst {kind : Kind} (hstarts : TokenSet.statementFirst.contains kind = true)
    (hother : kind ∉ knownStarts) : TokenSet.expressionFirst.contains kind = true := by
  revert hstarts hother
  cases kind <;> decide

theorem leads_knownStatement (hready : standing.Ready room weight) (hlooks : standing.spent + 2 ≤ room)
    (hweight : 4 * (standing.raw + standing.slack) + 1 < weight)
    (hstarts : TokenSet.statementFirst.contains standing.here = true)
    (hended : ∀ next, standing.Later next → (standing.slack = 1 → standing.Advanced next) → ended () next) :
    knownStatement.Leads room weight standing ended := by
  refine .bind (leads_current (by omega) fun next hnext => ?_)
  have honward {last : Standing} (hlast : next.Onward last) : ended () last := hended last (by omega) fun _ => by omega
  have hexpression {last : Standing} (hlast : next.Looked 0 last)
      (hhere : TokenSet.expressionFirst.contains last.here = true) :
      expressionStatement.Leads room weight last ended := by
    refine leads_expressionStatement (by omega) (by omega) (by omega) fun there _ hadvanced => hended there (by omega) fun hslack => ?_
    have hmoved := hadvanced (by omega) (.inl hhere)
    omega
  split
  · exact leads_block (by omega) fun _ => honward
  · exact leads_node (leads_advance (by omega) fun last _ => honward (by omega))
  · exact leads_ifStatement (by omega) (by omega) fun _ => honward
  · exact leads_whileStatement (by omega) (by omega) fun _ => honward
  · exact leads_doWhileStatement (by omega) (by omega) fun _ => honward
  · exact leads_switchStatement (by omega) (by omega) fun _ => honward
  · exact leads_forStatement (by omega) (by omega) fun _ => honward
  · exact leads_foreachStatement (by omega) (by omega) fun _ => honward
  · exact leads_jumpStatement (by omega) (by omega) fun _ => honward
  · exact leads_jumpStatement (by omega) (by omega) fun _ => honward
  · exact leads_returnStatement (by omega) (by omega) fun _ => honward
  · exact leads_yieldStatement (by omega) (by omega) fun _ => honward
  · exact leads_localDeclaration (by omega) (by omega) fun last _ => honward (by omega)
  · exact leads_varStatement (by omega) (by omega) fun _ => honward
  · next hfunction =>
    refine .bind (leads_ofStep trivial fun follower last hlast => ?_)
    have hlooked : next.Looked 0 last := hlast
    have hhere : last.here = .kwFunction := by rw [hlooked.here_eq, hnext.here_eq, hfunction]
    refine leads_ite (fun _ => ?_) fun _ => hexpression hlooked (by rw [hhere]; decide)
    exact leads_functionDeclaration (by omega) hhere (by omega) fun there _ => honward (by omega)
  · exact leads_classDeclaration (by omega) (by omega) fun _ => honward
  · exact leads_tryStatement (by omega) (by omega) fun _ => honward
  · exact leads_throwStatement (by omega) (by omega) fun _ => honward
  · exact leads_constDeclaration (by omega) (by omega) fun _ => honward
  · exact leads_enumDeclaration (by omega) (by omega) fun _ => honward
  · refine hexpression ⟨by omega, rfl, rfl, rfl, by omega, by omega, rfl, rfl⟩ ?_
    rw [hnext.here_eq]
    refine contains_expressionFirst hstarts fun hmem => ?_
    simp only [knownStarts, List.mem_cons, List.not_mem_nil, or_false] at hmem
    grind

theorem leads_recoverStatement (hready : standing.Ready room weight) (hlooks : standing.spent ≤ room)
    (hweight : 4 * (standing.raw + standing.slack) < weight)
    (hended : ∀ next, standing.Later next → (0 < standing.left → standing.slack = 1 → next.raw < standing.left) →
      ended () next) : recoverStatement.Leads room weight standing ended := by
  refine leads_if (leads_stopped (fun hstopped => leads_pure (hended standing (by omega) fun _ _ => by omega)) fun _ _ => ?_)
  refine leads_node (.bind (leads_reportHere fun next _ => ?_))
  refine leads_call ⟨by omega, ?_, fun _ => by omega⟩ ?_ fun last hlast => hended last ?_ fun _ _ => ?_
  · simp only [Nonterminal.needs]
    omega
  · simp only [Nonterminal.weight, Nonterminal.rank]
    omega
  · have hlater := hlast.1
    omega
  · have hmoved : last.raw < next.left := hlast.2.2
    omega

theorem leads_statement (hopens : standing.Opens room weight 2) :
    statement.Leads room weight standing fun _ next =>
      standing.Later next ∧ (next.slack = 0 ∧ next.spent ≤ standing.spent ∨ next.spent ≤ standing.price) ∧
        (0 < standing.left → standing.slack = 1 → standing.Advanced next) := by
  refine leads_if (leads_descend (fun next hnext _ _ => ?_) fun next _ _ _ => leads_abandon ?_)
  swap
  · exact ⟨by omega, by omega, fun _ _ => by omega⟩
  have hascend {last : Standing} (hlast : standing.Later last)
      (hmoved : 0 < standing.left → standing.slack = 1 → standing.Advanced last) :
      (Rule.ofStep .ascend).Leads room weight last fun _ next =>
        standing.Later next ∧ (next.slack = 0 ∧ next.spent ≤ standing.spent ∨ next.spent ≤ standing.price) ∧
          (0 < standing.left → standing.slack = 1 → standing.Advanced next) := by
    refine leads_ascend fun there _ _ _ => ⟨by omega, by omega, fun hleft hslack => ?_⟩
    have hgone := hmoved hleft hslack
    omega
  refine leads_if (leads_currentIs (by omega) (fun hgarbage last hlast => .bind ?_) fun _ last hlast => leads_if ?_)
  · refine leads_advanceGarbage (by omega) ?_ fun there _ => hascend (by omega) fun _ _ => by omega
    rw [hlast.here_eq, hgarbage]
    decide
  refine leads_currentIn (by omega) (fun hstarts there hthere => .bind ?_) fun _ there _ => .bind ?_
  · refine leads_knownStatement (by omega) (by omega) (by omega) (hthere.here_eq ▸ hstarts) fun final _ hadvanced => ?_
    refine hascend (by omega) fun _ hslack => ?_
    have hmoved := hadvanced (by omega)
    omega
  · refine leads_recoverStatement (by omega) (by omega) (by omega) fun final _ hmoved => hascend (by omega) fun hleft hslack => ?_
    have hless := hmoved (by omega) (by omega)
    omega

theorem leads_script (hopens : standing.Opens room weight 3)
    (hlooks : standing.spent + 6 * min standing.slack standing.raw ≤ room) :
    script.Leads room weight standing fun _ => standing.Costs (5 * min standing.slack standing.raw) 12 := by
  refine leads_if (leads_stopped (fun _ => leads_pure (by omega)) fun _ _ => leads_if ?_)
  refine leads_currentIs (by omega) (fun _ next _ => .bind ?_) fun _ next _ => .bind ?_
  · refine leads_reportHere fun last _ => .bind (leads_advanceAsError (by omega) (fun _ => ?_) fun there _ => ?_)
    · exact leads_callList rfl 12 rfl (by omega) fun final _ => by omega
    · exact leads_callList rfl 12 rfl (by omega) fun final _ => by omega
  · refine leads_callStatement (by omega) fun last _ _ hadvanced => leads_callList rfl 12 rfl ?_ fun final _ => by omega
    by_cases hleft : 0 < next.left
    · have hmoved := hadvanced hleft (by omega)
      omega
    · omega

/-- The rule of every nonterminal leads to what that promises. -/
theorem leads_ruleOf (nonterminal : Nonterminal) (standing : Standing) (hcalled : nonterminal.Called room standing) :
    (ruleOf nonterminal).Leads room (nonterminal.weight standing) standing fun _ => nonterminal.Exits standing := by
  have hleft := standing.left_le
  have hprice := standing.price_le
  have hslack := standing.slack_le
  obtain ⟨hroom, hlooks, hsettled⟩ := hcalled
  have hopens : standing.Opens room (nonterminal.weight standing) nonterminal.rank := ⟨hleft, hprice, hslack, hroom, rfl⟩
  cases nonterminal with
  | script => exact (leads_script hopens hlooks).mono fun _ _ hcosts => ⟨hcosts.1, hcosts.2, trivial⟩
  | statement =>
    refine (leads_statement hopens).mono fun _ next hnext => ⟨hnext.1, ?_, by omega, hnext.2.2⟩
    simp only [Nonterminal.tries, Nonterminal.margin]
    omega
  | blockStatements => exact (leads_blockStatements hopens hlooks).mono fun _ _ hcosts => ⟨hcosts.1, hcosts.2, trivial⟩
  | caseStatements => exact (leads_caseStatements hopens hlooks).mono fun _ _ hcosts => ⟨hcosts.1, hcosts.2, trivial⟩
  | switchClauses => exact (leads_switchClauses hopens hlooks).mono fun _ _ hcosts => ⟨hcosts.1, hcosts.2, trivial⟩
  | localBindings => exact (leads_localBindings hopens hlooks).mono fun _ _ hcosts => ⟨hcosts.1, hcosts.2, trivial⟩
  | expression =>
    refine (leads_expressionOf hopens).mono fun _ next hnext => ⟨hnext.1, ?_, by omega, hnext.2.2⟩
    simp only [Nonterminal.tries, Nonterminal.margin]
    omega
  | operators => exact (leads_operators hopens hlooks).mono fun _ _ hcosts => ⟨hcosts.1, hcosts.2, trivial⟩
  | arguments => exact (leads_arguments hopens hlooks).mono fun _ _ hcosts => ⟨hcosts.1, hcosts.2, trivial⟩
  | elements => exact (leads_elements hopens hlooks).mono fun _ _ hcosts => ⟨hcosts.1, hcosts.2, trivial⟩
  | slots => exact (leads_slots hopens hlooks).mono fun _ _ hcosts => ⟨hcosts.1, hcosts.2, trivial⟩
  | parameterList => exact (leads_parameterList hopens hlooks).mono fun _ _ hcosts => ⟨hcosts.1, hcosts.2, trivial⟩
  | path => exact (leads_path hopens hlooks).mono fun _ _ hcosts => ⟨hcosts.1, hcosts.2, trivial⟩
  | members => exact (leads_members hopens hlooks).mono fun _ _ hcosts => ⟨hcosts.1, hcosts.2, trivial⟩
  | enumEntries => exact (leads_enumEntries hopens hlooks).mono fun _ _ hcosts => ⟨hcosts.1, hcosts.2, trivial⟩
  | attributeList => exact (leads_attributeList hopens hlooks).mono fun _ _ hcosts => ⟨hcosts.1, hcosts.2, trivial⟩
  | skipUntil => exact leads_skipUntil hopens hlooks
  | skipToStatement => exact leads_skipToStatement hopens (hsettled rfl)

end Grammar

end Squirrel

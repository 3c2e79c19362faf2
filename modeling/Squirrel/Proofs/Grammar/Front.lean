import Squirrel.Proofs.Grammar.Front.Expression
import Squirrel.Proofs.Parse.Reading

/-!
# Parses behind a front

Every nonterminal does the same behind a front as to the text alone, faults included. Only the report about a missing
semicolon looks back at a token, and the keyword of its statement always stands there.
-/

namespace Squirrel

/-- Tokens that have been passed stay behind. -/
theorem Rule.kept_behind : Rule.Kept fun state after => state.behind ⊆ after.behind where
  refl _ := List.Subset.refl _
  trans := List.Subset.trans
  wrap _ _ _ _ hinner := hinner
  step s state after answer hrun := by
    have hpass : state.behind ⊆ state.passTrivia.behind := List.subset_append_right _ _
    cases s <;> simp only [Step.run, Bind.bind, Except.bind, pure, Except.pure, Except.ok.injEq, Prod.mk.injEq] at hrun
    case current | adjacent =>
      split at hrun
      · simp at hrun
      · next looked hlook =>
        obtain ⟨-, rfl⟩ := Prod.mk.inj (Except.ok.inj hrun)
        rw [State.eq_of_spendLook hlook]
        exact hpass
    case next | currentSpan | afterLineBreak | numberFollows | placeTrivia => exact hrun.2 ▸ hpass
    case previous | atEnd | stopped | pushOpener | popOpener | ascend | mark | report =>
      exact hrun.2 ▸ List.Subset.refl _
    case reportOnce offset diagnostic =>
      rw [← hrun.2, State.reportOnce]
      split <;> exact List.Subset.refl _
    case descend =>
      rw [State.descend] at hrun
      split at hrun <;> exact (Prod.mk.inj hrun).2 ▸ List.Subset.refl _
    case advance =>
      split at hrun
      · simp at hrun
      · next advanced hadvance =>
        obtain ⟨-, rfl⟩ := Prod.mk.inj (Except.ok.inj hrun)
        rw [State.advance] at hadvance
        split at hadvance
        · simp at hadvance
        · obtain ⟨left?, exceeded?, hspend, -, -⟩ := State.spendStep_eq state
          rw [hspend] at hadvance
          obtain rfl := Except.ok.inj hadvance
          exact List.subset_cons_self _ _

namespace Grammar

open Rule

variable {runCall : Nonterminal → State → Except Fault State} {front : Front} {state : State}

section

variable (hcalls : ShiftingCalls runCall)

include hcalls

/-! ### Statements -/

theorem shifts_block : block.Shifts runCall :=
  shifts_node (shifts_bind shifts_openDelimiter fun _ =>
    shifts_bind (shifts_call hcalls _ rfl) fun _ => shifts_closeDelimiter)

theorem shifts_list {nonterminal : Nonterminal} {ends : Rule Bool} (hends : ends.Shifts runCall)
    (hplaceless : nonterminal.isPlaceless = true) : (do
      if ← ends then return
      else
        call .statement
        call nonterminal : Rule Unit).Shifts runCall :=
  shifts_bind hends fun _ => shifts_ite (shifts_pure _)
    (shifts_bind (shifts_call hcalls _ rfl) fun _ => shifts_call hcalls _ hplaceless)

theorem shifts_blockStatements : blockStatements.Shifts runCall :=
  shifts_list hcalls (shifts_orM shifts_stopped shifts_currentIs) rfl

theorem shifts_caseStatements : caseStatements.Shifts runCall :=
  shifts_list hcalls (shifts_orM shifts_stopped shifts_currentIn) rfl

theorem shifts_parenHeader {construct : String} : (parenHeader construct).Shifts runCall := by
  refine shifts_bind shifts_currentIs fun _ => shifts_ite ?_ (shifts_bind shifts_expect fun _ => ?_)
  · exact shifts_bind shifts_openDelimiter fun _ => shifts_bind (shifts_call hcalls _ rfl) fun _ => shifts_closeDelimiter
  · exact shifts_bind shifts_currentIn fun _ => shifts_ite
      (shifts_bind (shifts_call hcalls _ rfl) fun _ => shifts_bind shifts_expect fun _ => shifts_pure _) (shifts_pure _)

theorem shifts_ifStatement : ifStatement.Shifts runCall := by
  have hrest : (do
      body "`if` branch"
      if ← currentIs .kwElse then
        node .elseStatement do
          advance
          body "`else` branch" : Rule Unit).Shifts runCall :=
    shifts_bind (shifts_body hcalls) fun _ => shifts_bind shifts_currentIs fun _ => shifts_ite
      (shifts_node (shifts_bind shifts_advance fun _ => shifts_body hcalls)) (shifts_pure _)
  refine shifts_node (shifts_bind shifts_advance fun _ => shifts_bind shifts_currentIs fun _ => shifts_ite ?_ ?_)
  · exact shifts_bind (shifts_parenthesized hcalls) fun _ => hrest
  · exact shifts_bind shifts_expect fun _ => hrest

theorem shifts_whileStatement : whileStatement.Shifts runCall :=
  shifts_node (shifts_bind shifts_advance fun _ => shifts_bind (shifts_parenHeader hcalls) fun _ =>
    shifts_bind shifts_currentIn fun _ => shifts_ite (shifts_call hcalls _ rfl) (shifts_pure _))

theorem shifts_doWhileStatement : doWhileStatement.Shifts runCall := by
  have hend : (eat .semicolon >>= fun _ => (pure () : Rule Unit)).Shifts runCall :=
    shifts_bind shifts_eat fun _ => shifts_pure _
  refine shifts_node (shifts_bind shifts_advance fun _ => shifts_bind (shifts_body hcalls) fun _ => ?_)
  exact shifts_bind shifts_expect fun _ => shifts_ite (shifts_bind (shifts_parenHeader hcalls) fun _ => hend) hend

omit hcalls in
theorem shifts_openHeader {statement : String} : (openHeader statement).Shifts runCall :=
  shifts_bind shifts_currentIs fun _ => shifts_ite (shifts_bind shifts_openDelimiter fun _ => shifts_pure _)
    (shifts_bind shifts_expect fun _ => shifts_pure _)

omit hcalls in
theorem shifts_closeHeader {opened : Bool} {construct : String} : (closeHeader opened construct).Shifts runCall :=
  shifts_ite shifts_closeDelimiter (shifts_bind shifts_expect fun _ => shifts_pure _)

theorem shifts_optionalExpression : optionalExpression.Shifts runCall :=
  shifts_bind shifts_currentIn fun _ => shifts_ite (shifts_call hcalls _ rfl) (shifts_pure _)

theorem shifts_localBindings : localBindings.Shifts runCall := by
  refine shifts_bind shifts_currentIs fun _ => shifts_ite ?_ shifts_reportHere
  refine shifts_bind (shifts_node (shifts_bind shifts_advance fun _ => ?_)) fun _ => ?_
  · exact shifts_bind (shifts_orM shifts_currentIs shifts_currentIs) fun _ => shifts_ite
      (shifts_bind shifts_advance fun _ => shifts_call hcalls _ rfl) (shifts_pure _)
  · exact shifts_bind shifts_eat fun _ => shifts_ite (shifts_call hcalls _ rfl) (shifts_pure _)

theorem shifts_localDeclaration (isStatement : Bool) : (localDeclaration isStatement).Shifts runCall :=
  shifts_node (shifts_bind shifts_advance fun _ => shifts_bind (shifts_call hcalls _ rfl) fun _ =>
    shifts_ite (shifts_bind shifts_eat fun _ => shifts_pure _) (shifts_pure _))

theorem shifts_forStatement : forStatement.Shifts runCall := by
  refine shifts_node (shifts_bind shifts_advance fun _ => shifts_bind shifts_openHeader fun opened => ?_)
  have hrest : (do
      let _ ← expect .semicolon "`;` after `for` initializer"
      optionalExpression
      let _ ← expect .semicolon "`;` after `for` condition"
      optionalExpression
      closeHeader opened "`for` header"
      body "`for` body" : Rule Unit).Shifts runCall :=
    shifts_bind shifts_expect fun _ => shifts_bind (shifts_optionalExpression hcalls) fun _ =>
      shifts_bind shifts_expect fun _ => shifts_bind (shifts_optionalExpression hcalls) fun _ =>
        shifts_bind shifts_closeHeader fun _ => shifts_body hcalls
  refine shifts_bind shifts_currentIs fun _ => shifts_ite ?_ ?_
  · exact shifts_bind (shifts_localDeclaration hcalls false) fun _ => hrest
  · exact shifts_bind (shifts_optionalExpression hcalls) fun _ => hrest

theorem shifts_foreachStatement : foreachStatement.Shifts runCall := by
  refine shifts_node (shifts_bind shifts_advance fun _ => shifts_bind shifts_openHeader fun opened => ?_)
  have hend : (do
      closeHeader opened "`foreach` header"
      body "`foreach` body" : Rule Unit).Shifts runCall :=
    shifts_bind shifts_closeHeader fun _ => shifts_body hcalls
  have hrest : (do
      if ← expect .kwIn "`in`" then expression
      closeHeader opened "`foreach` header"
      body "`foreach` body" : Rule Unit).Shifts runCall :=
    shifts_bind shifts_expect fun _ => shifts_ite (shifts_bind (shifts_call hcalls _ rfl) fun _ => hend) hend
  refine shifts_bind shifts_expect fun _ => shifts_ite (shifts_bind shifts_eat fun _ => shifts_ite ?_ hrest) hrest
  exact shifts_bind shifts_expect fun _ => hrest

theorem shifts_caseClause : caseClause.Shifts runCall :=
  shifts_node (shifts_bind shifts_advance fun _ => shifts_bind (shifts_call hcalls _ rfl) fun _ =>
    shifts_bind shifts_expect fun _ => shifts_call hcalls _ rfl)

theorem shifts_defaultClause : defaultClause.Shifts runCall :=
  shifts_node (shifts_bind shifts_advance fun _ => shifts_bind shifts_expect fun _ => shifts_call hcalls _ rfl)

theorem shifts_switchClauses (seenDefault : Bool) : (switchClauses seenDefault).Shifts runCall := by
  refine shifts_bind shifts_stopped fun _ => shifts_ite (shifts_pure _) (shifts_bind shifts_current fun kind => ?_)
  have hcase : (caseClause >>= fun _ => call (.switchClauses seenDefault)).Shifts runCall :=
    shifts_bind (shifts_caseClause hcalls) fun _ => shifts_call hcalls _ rfl
  have hdefault : (defaultClause >>= fun _ => call (.switchClauses true)).Shifts runCall :=
    shifts_bind (shifts_defaultClause hcalls) fun _ => shifts_call hcalls _ rfl
  split
  · exact shifts_pure _
  · exact shifts_ite (shifts_bind shifts_reportHere fun _ => hcase) hcase
  · exact shifts_ite (shifts_bind shifts_reportHere fun _ => hdefault) hdefault
  · exact shifts_bind (shifts_recover hcalls) fun _ => shifts_call hcalls _ rfl

theorem shifts_switchStatement : switchStatement.Shifts runCall := by
  refine shifts_node (shifts_bind shifts_advance fun _ => shifts_bind (shifts_parenHeader hcalls) fun _ =>
    shifts_bind shifts_currentIs fun _ => shifts_ite ?_ ?_)
  · exact shifts_bind shifts_openDelimiter fun _ => shifts_bind (shifts_call hcalls _ rfl) fun _ => shifts_closeDelimiter
  · exact shifts_bind shifts_expect fun _ => shifts_pure _

theorem shifts_returnStatement : returnStatement.Shifts runCall := by
  have hend : (eat .semicolon >>= fun _ => (pure () : Rule Unit)).Shifts runCall :=
    shifts_bind shifts_eat fun _ => shifts_pure _
  exact shifts_node (shifts_bind shifts_advance fun _ => shifts_bind shifts_startsExpressionOrTable fun _ =>
    shifts_ite (shifts_bind (shifts_call hcalls _ rfl) fun _ => hend) hend)

theorem shifts_yieldStatement : yieldStatement.Shifts runCall :=
  shifts_node (shifts_bind shifts_advance fun _ =>
    shifts_bind (shifts_andM shifts_currentIn (shifts_map (shifts_ofStep _ rfl))) fun _ =>
    shifts_ite (shifts_bind (shifts_call hcalls _ rfl) fun _ => shifts_expectTerminator) shifts_expectTerminator)

theorem shifts_throwStatement : throwStatement.Shifts runCall :=
  shifts_node (shifts_bind shifts_advance fun _ => shifts_bind (shifts_call hcalls _ rfl) fun _ =>
    shifts_bind shifts_eat fun _ => shifts_pure _)

theorem shifts_varStatement : varStatement.Shifts runCall := by
  have hend : (eat .semicolon >>= fun _ => (pure () : Rule Unit)).Shifts runCall :=
    shifts_bind shifts_eat fun _ => shifts_pure _
  refine shifts_node (shifts_bind shifts_advance fun _ => shifts_bind shifts_expect fun _ => shifts_ite ?_ hend)
  exact shifts_bind shifts_expect fun _ => shifts_ite (shifts_bind (shifts_call hcalls _ rfl) fun _ => hend) hend

theorem shifts_tryStatement : tryStatement.Shifts runCall := by
  refine shifts_node (shifts_bind shifts_advance fun _ => shifts_bind (shifts_body hcalls) fun _ =>
    shifts_bind shifts_currentIs fun _ => shifts_ite ?_ (shifts_bind shifts_expect fun _ => shifts_pure _))
  refine shifts_node (shifts_bind shifts_advance fun _ => shifts_bind shifts_currentIs fun _ => shifts_ite ?_ ?_)
  · exact shifts_bind shifts_openDelimiter fun _ => shifts_bind shifts_expect fun _ =>
      shifts_bind shifts_closeDelimiter fun _ => shifts_body hcalls
  · exact shifts_bind shifts_expect fun _ => shifts_body hcalls

theorem shifts_expressionStatement : expressionStatement.Shifts runCall :=
  shifts_node (shifts_bind (shifts_call hcalls _ rfl) fun _ => shifts_bind shifts_eat fun _ => shifts_pure _)

end

/-! ### All statements -/

theorem behind_of_ofStep {α : Type} {step : Step α} {answer : α} {after : State}
    (hexec : (ofStep step).exec runCall state = .ok (answer, after)) : state.behind ⊆ after.behind := by
  exact kept_behind.step step (run_of_exec_ofStep hexec)

theorem behind_of_eat {kind : Kind} {answer : Bool} {after : State}
    (hexec : (eat kind).exec runCall state = .ok (answer, after)) : state.behind ⊆ after.behind := by
  obtain ⟨found, looked, his, hrest⟩ := exec_bind_ok hexec
  obtain ⟨here, _, hcurrent, hdone⟩ := exec_bind_ok his
  obtain ⟨-, rfl⟩ := Prod.mk.inj (Except.ok.inj hdone)
  refine List.Subset.trans (behind_of_ofStep hcurrent) ?_
  cases found with
  | false =>
    obtain ⟨-, rfl⟩ := Prod.mk.inj (Except.ok.inj hrest)
    exact List.Subset.refl _
  | true =>
    obtain ⟨_, moved, hadvance, hdone⟩ := exec_bind_ok hrest
    obtain ⟨-, rfl⟩ := Prod.mk.inj (Except.ok.inj hdone)
    exact behind_of_ofStep hadvance

/-- What the report about a missing semicolon looks back at is a token of the text if one has been passed. -/
theorem shiftsAt_expectSemicolon {what : String} (hword : ∃ token ∈ state.behind, token.kind.isTrivia = false) :
    (expectSemicolon what).ShiftsAt runCall front id (expectSemicolon what) state := by
  apply (shifts_eat front state).bind
  intro found after heat
  cases found with
  | true => exact shifts_pure () front after
  | false =>
    have hword : ∃ token ∈ after.behind, token.kind.isTrivia = false := by
      obtain ⟨token, hmem, htrivia⟩ := hword
      exact ⟨token, behind_of_eat heat hmem, htrivia⟩
    have hprevious : (ofStep .previous).ShiftsAt runCall front (Option.map (Token.shift front.length))
        (ofStep .previous) after := by
      simp only [ShiftsAt, ofStep, exec, Step.run_previous front hword]
      rfl
    apply hprevious.bind
    intro token? state _
    cases token? with
    | none => exact shifts_pure () front state
    | some token =>
      let missing := (Diagnostic.report .expectedTerminator token.span (some ("`;` after " ++ what))).withFix
        ⟨"insert `;`", token.text ++ ";"⟩
      have hreport : (ofStep (.reportOnce (token.start + front.length) (missing.shift front.length))).ShiftsAt runCall
          front id (ofStep (.reportOnce token.start missing)) state := shiftsAt_reportOnce _ _
      rw [Diagnostic.shift_withFix, Diagnostic.shift_report, ← Token.span_shift] at hreport
      exact hreport

theorem word_of_advance {answer : Unit} {after : State} (hword : (State.kindOf state.ahead).isTrivia = false)
    (hexec : advance.exec runCall state = .ok (answer, after)) : ∃ token ∈ after.behind, token.kind.isTrivia = false := by
  simp only [advance, ofStep, exec, Step.run, Bind.bind, Except.bind, pure, Except.pure, State.advance] at hexec
  cases hahead : state.ahead with
  | nil => simp [hahead] at hexec
  | cons token rest =>
    rw [hahead] at hword
    simp only [hahead] at hexec
    obtain ⟨-, rfl⟩ := Prod.mk.inj (Except.ok.inj hexec)
    exact ⟨token, List.mem_cons_self, hword⟩

theorem kindOf_of_current {kind : Kind} {after : State} (hexec : current.exec runCall state = .ok (kind, after)) :
    State.kindOf after.ahead = kind := by
  simp only [current, ofStep, exec, Step.run, Bind.bind, Except.bind, pure, Except.pure] at hexec
  cases hlook : state.passTrivia.spendLook with
  | error fault => simp [hlook] at hexec
  | ok looked =>
    simp only [hlook] at hexec
    obtain ⟨hkind, rfl⟩ := Prod.mk.inj (Except.ok.inj hexec)
    exact hkind

theorem shiftsAt_jumpStatement {kind : Kind} {keyword : String} (hword : (State.kindOf state.ahead).isTrivia = false) :
    (jumpStatement kind keyword).ShiftsAt runCall front id (jumpStatement kind keyword) state := by
  apply shiftsAt_node
  intro placed
  apply (shifts_advance _ _).bind
  intro _ after hadvance
  exact shiftsAt_expectSemicolon (word_of_advance (by exact hword) hadvance)

section

variable (hcalls : ShiftingCalls runCall)

include hcalls

theorem shifts_knownStatement : knownStatement.Shifts runCall := by
  intro front state
  apply (shifts_current front state).bind
  intro kind state hcurrent
  have hhere := kindOf_of_current hcurrent
  by_cases hjump : kind = .kwBreak ∨ kind = .kwContinue
  · obtain rfl | rfl := hjump
    · exact shiftsAt_jumpStatement (by rw [hhere]; rfl)
    · exact shiftsAt_jumpStatement (by rw [hhere]; rfl)
  -- no other statement looks back
  · refine (?_ : Shifts runCall _) front state
    split
    · exact shifts_block hcalls
    · exact shifts_node shifts_advance
    · exact shifts_ifStatement hcalls
    · exact shifts_whileStatement hcalls
    · exact shifts_doWhileStatement hcalls
    · exact shifts_switchStatement hcalls
    · exact shifts_forStatement hcalls
    · exact shifts_foreachStatement hcalls
    · next hkind => exact absurd (.inl hkind) hjump
    · next hkind => exact absurd (.inr hkind) hjump
    · exact shifts_returnStatement hcalls
    · exact shifts_yieldStatement hcalls
    · exact shifts_localDeclaration hcalls true
    · exact shifts_varStatement hcalls
    · exact shifts_bind (shifts_ofStep _ rfl) fun _ =>
        shifts_ite (shifts_functionDeclaration hcalls) (shifts_expressionStatement hcalls)
    · exact shifts_classDeclaration hcalls
    · exact shifts_tryStatement hcalls
    · exact shifts_throwStatement hcalls
    · exact shifts_constDeclaration hcalls
    · exact shifts_enumDeclaration hcalls
    · exact shifts_expressionStatement hcalls

theorem shifts_statement : statement.Shifts runCall := by
  have hend : (ofStep .ascend : Rule Unit).Shifts runCall := shifts_ofStep .ascend rfl
  refine shifts_bind (shifts_ofStep .descend rfl) fun _ => shifts_ite ?_ shifts_abandon
  refine shifts_bind shifts_currentIs fun _ => shifts_ite ?_ ?_
  · exact shifts_bind shifts_advanceGarbage fun _ => hend
  refine shifts_bind shifts_currentIn fun _ => shifts_ite ?_ ?_
  · exact shifts_bind (shifts_knownStatement hcalls) fun _ => hend
  · exact shifts_bind (shifts_recoverStatement hcalls) fun _ => hend

theorem shifts_script : script.Shifts runCall := by
  refine shifts_bind shifts_stopped fun _ => shifts_ite (shifts_pure _) (shifts_bind shifts_currentIs fun _ => ?_)
  apply shifts_ite
  · exact shifts_bind shifts_reportHere fun _ => shifts_bind shifts_advanceAsError fun _ => shifts_call hcalls _ rfl
  · exact shifts_bind (shifts_call hcalls _ rfl) fun _ => shifts_call hcalls _ rfl

/-- Every nonterminal does the same behind a front if those that it calls do. -/
theorem shiftsAt_ruleOf (nonterminal : Nonterminal) :
    (ruleOf (front.nonterminal nonterminal)).ShiftsAt runCall front id (ruleOf nonterminal) state := by
  cases nonterminal with
  | script => exact shifts_script hcalls front state
  | statement => exact shifts_statement hcalls front state
  | blockStatements => exact shifts_blockStatements hcalls front state
  | caseStatements => exact shifts_caseStatements hcalls front state
  | switchClauses seenDefault => exact shifts_switchClauses hcalls seenDefault front state
  | localBindings => exact shifts_localBindings hcalls front state
  | expression power tableAllowed => exact shifts_expressionOf hcalls power tableAllowed front state
  | operators start power => exact shiftsAt_operators hcalls start power
  | arguments => exact shifts_arguments hcalls front state
  | elements => exact shifts_elements hcalls front state
  | slots => exact shifts_slots hcalls front state
  | parameterList variadics count => exact shiftsAt_parameterList hcalls variadics count
  | path separator => exact shifts_path hcalls separator front state
  | members => exact shifts_members hcalls front state
  | enumEntries => exact shifts_enumEntries hcalls front state
  | attributeList => exact shifts_attributeList hcalls front state
  | skipUntil recovery => exact shifts_skipUntil hcalls recovery front state
  | skipToStatement => exact shifts_skipToStatement hcalls front state

end

end Grammar

/-! ### Whole runs -/

/-- A run behind a front comes to what the run on the text alone comes to, behind the front. -/
theorem shiftingCalls_run (bound : Nat) : ShiftingCalls (Nonterminal.run bound) := by
  induction bound with
  | zero => exact fun _ _ _ => rfl
  | succ bound ih =>
    intro front nonterminal state
    have hrule : (Grammar.ruleOf (front.nonterminal nonterminal)).ShiftsAt (Nonterminal.run bound) front id
        (Grammar.ruleOf nonterminal) state := Grammar.shiftsAt_ruleOf ih nonterminal
    rw [Rule.ShiftsAt] at hrule
    rw [Nonterminal.run, Nonterminal.run, hrule]
    cases Rule.exec (Nonterminal.run bound) (Grammar.ruleOf nonterminal) state <;> rfl

/-- A parse that comes to a text behind a front puts the trees of the text behind those of the front, and its reports behind
the reports of the front. -/
theorem parseTokens_front {front : Front} {bound sourceLength textLength : Nat} {lexed textLexed : Lexed} {parsed : Parsed}
    (hrun : Nonterminal.script.run (nestingBound lexed.tokens.length) (.initial .unbounded lexed.tokens sourceLength)
      = Nonterminal.script.run bound (front.state (.initial .unbounded textLexed.tokens textLength)))
    (hbound : nestingBound textLexed.tokens.length ≤ bound)
    (hparse : parseTokens .unbounded textLength textLexed = .ok parsed) :
    ∃ reports, parsed.diagnostics = Diagnostic.sorted (textLexed.diagnostics ++ reports) ∧
      parseTokens .unbounded sourceLength lexed = .ok {
        root := .node .script (front.placed.reverse ++ parsed.root.children)
        diagnostics := Diagnostic.sorted
          (lexed.diagnostics ++ (front.reports.reverse ++ reports.map (Diagnostic.shift front.length)))
        stepsTaken := parsed.stepsTaken } := by
  obtain ⟨after, hafter, hwithin, rfl⟩ := parseTokens_ok hparse
  refine ⟨after.reports.reverse, rfl, ?_⟩
  have hshifted := shiftingCalls_run bound front .script (.initial .unbounded textLexed.tokens textLength)
  rw [Nonterminal.run_of_le hbound hafter] at hshifted
  have hfront : Nonterminal.script.run (nestingBound lexed.tokens.length)
      (.initial .unbounded lexed.tokens sourceLength) = .ok (front.state after) := hrun.trans hshifted
  have hexceeded : (front.state after).exceeded? = none := hwithin
  rw [parseTokens, hfront]
  simp only [hexceeded, State.passTrivia_front, State.placePending_front, Tree.children]
  simp only [Front.state, List.reverse_append, List.map_reverse]
  rfl

end Squirrel

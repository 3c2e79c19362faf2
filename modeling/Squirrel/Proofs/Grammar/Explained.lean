import Squirrel.Proofs.Parse.Evaluation
import Squirrel.Proofs.Parse.Known
import Squirrel.Proofs.Token.Fault

/-!
# Every error node is explained

Error nodes go around what is skipped, around garbage and around a table that is not allowed. A rule reports before it
opens one, or the tokens come with a diagnostic. Such a report may be dropped because the last one was about the same
offset; then that one explains the node, for an unclosed delimiter is reported about the end only, where no token is.
Each rule is followed with what it knows, and most have no error node of their own.
-/

namespace Squirrel

namespace Grammar

open Rule

variable {known : Known}

/-! ### Small rules -/

attribute [local grind =] Step.Allowed

@[simp] theorem explains_call (nonterminal : Nonterminal) (ended : Unit → Known → Prop) :
    (call nonterminal).Explains known ended ↔
      ended () (.elsewhere (known.covered ∨ nonterminal.Covers known)) := Iff.rfl

@[simp] theorem explains_node (kind : Kind) (inner : Rule Unit) (ended : Unit → Known → Prop) :
    (node kind inner).Explains known ended ↔
      inner.Explains known.inside fun _ after => (kind = .error → after.covered) ∧ ended () (known.outside after) := by
  rw [node, explains_bind, explains_ofStep]
  constructor
  · rintro ⟨-, hall⟩
    exact hall 0 trivial
  · exact fun hinner => ⟨trivial, fun _ _ => hinner⟩

@[simp] theorem explains_current : current.Explains known fun _ _ => True := by simp [current, Step.Allowed]

/-- The kind of the token here is known once a rule has looked at it. -/
theorem explains_current_kind : current.Explains known fun kind after => after.kind? = some kind :=
  ⟨trivial, fun _ _ => rfl⟩

@[simp] theorem explains_currentSpan : currentSpan.Explains known fun _ _ => True := by simp [currentSpan, Step.Allowed]

@[simp] theorem explains_atEnd : atEnd.Explains known fun _ _ => True := by simp [atEnd, Step.Allowed]

@[simp] theorem explains_stopped : stopped.Explains known fun _ _ => True := by simp [stopped, Step.Allowed]

@[simp] theorem explains_advance : advance.Explains known fun _ _ => True := by simp [advance, Step.Allowed]

@[simp] theorem explains_currentIs (kind : Kind) : (currentIs kind).Explains known fun _ _ => True := by simp [currentIs]

@[simp] theorem explains_currentIn (set : TokenSet) : (currentIn set).Explains known fun _ _ => True := by simp [currentIn]

@[simp] theorem explains_eat (kind : Kind) : (eat kind).Explains known fun _ _ => True := by simp [eat]

@[simp] theorem explains_expect (kind : Kind) (what : String) : (expect kind what).Explains known fun _ _ => True := by
  refine (explains_bind ..).mpr ((explains_eat kind).mono fun eaten after _ => ?_)
  cases eaten with
  | true => trivial
  | false => exact ⟨trivial, fun span _ => ⟨trivial, fun ended _ => ⟨.inl rfl, fun _ _ => trivial⟩⟩⟩

/-- A report at a span starts where the span starts. -/
theorem start_reportAt (span : Span) (ranOut : Bool) (kind : DiagnosticKind) (detail : Option String) :
    (reportAt span ranOut kind detail).span.start = span.start := by
  unfold reportAt
  split <;> rfl

/-- After a report that the token here has. -/
theorem explains_reportHere_told (kind : DiagnosticKind) (detail : Option String) :
    (reportHere kind detail).Explains known fun _ after =>
      after.told ∧ after.kind? = known.kind? ∧ (known.going → after.going) := by
  refine ⟨trivial, fun span _ => ⟨trivial, fun ranOut _ => ⟨.inl (start_reportAt ..), fun _ _ => ?_⟩⟩⟩
  cases ranOut <;> exact ⟨.inr ⟨span, rfl, rfl⟩, rfl, id⟩

@[simp] theorem explains_reportHere (kind : DiagnosticKind) (detail : Option String) :
    (reportHere kind detail).Explains known fun _ _ => True :=
  (explains_reportHere_told kind detail).mono fun _ _ _ => trivial

/-! ### Skipping -/

/-- An error node past a limit needs no report. -/
theorem explains_abandon (hbeyond : known.beyond) : abandon.Explains known fun _ _ => True :=
  (explains_node ..).mpr ⟨fun _ => hbeyond, trivial⟩

/-- What goes under an error node has been reported, or is garbage. -/
theorem explains_advanceAsError (hreported : known.told ∨ known.kind? = some .garbage) :
    advanceAsError.Explains known fun _ _ => True := by
  refine ⟨trivial, fun ended _ => ?_⟩
  cases ended with
  | true => trivial
  | false => exact (explains_node ..).mpr ⟨trivial, fun _ _ => ⟨fun _ => .inr hreported, trivial⟩⟩

theorem explains_advanceGarbage (hgarbage : known.kind? = some .garbage) :
    advanceGarbage.Explains known fun _ _ => True := by
  refine ⟨trivial, fun kind hagrees => explains_advanceAsError (.inr ?_)⟩
  exact congrArg some (hagrees .garbage hgarbage)

/-- The token that a rule skips first is one that has been reported. -/
theorem explains_skipUntil (recovery : TokenSet) : (skipUntil recovery).Explains known fun _ after =>
    (Nonterminal.skipUntil recovery).Covers known → after.covered := by
  refine ⟨trivial, fun kind hkind => ?_⟩
  show (if recovery.contains kind then (pure () : Rule Unit) else _).Explains _ _
  split
  · next hin =>
    rintro ⟨-, -, found, hfound, hout⟩
    rw [hkind found hfound, hout] at hin
    exact nomatch hin
  · refine ⟨trivial, fun halted hhalted => ?_⟩
    cases halted with
    | true => exact fun hcovers => nomatch hhalted hcovers.2.1
    | false => exact ⟨trivial, fun _ _ hcovers => .inl (.inr (.inl hcovers.1))⟩

theorem explains_skipToStatement : skipToStatement.Explains known fun _ after => known.told → after.covered := by
  refine ⟨trivial, fun _ _ => ⟨trivial, fun halted _ => ?_⟩⟩
  cases halted with
  | true => exact fun htold => .inr (.inl htold)
  | false =>
    refine ⟨trivial, fun kind _ => ?_⟩
    show (if TokenSet.statementSync.contains kind then (pure () : Rule Unit) else _).Explains _ _
    split
    · exact fun htold => .inr (.inl htold)
    · exact fun htold => .inl (.inr (.inl htold))

@[simp] theorem explains_recover (kind : DiagnosticKind) (detail : String) (recovery : TokenSet) :
    (recover kind detail recovery).Explains known fun _ _ => True := by
  refine (explains_bind ..).mpr ((explains_orM ..).mpr ⟨trivial, fun found _ => ?_⟩)
  show if recovery.contains found then _ else _
  split
  · exact explains_reportHere ..
  · next hout =>
    refine ⟨trivial, fun halted _ => ?_⟩
    cases halted with
    | true => exact explains_reportHere ..
    | false =>
      refine (explains_node ..).mpr ((explains_bind ..).mpr ?_)
      refine (explains_reportHere_told kind _).mono fun _ after ⟨htold, hkind, hgoing⟩ => ⟨fun _ => ?_, trivial⟩
      exact .inr ⟨htold, hgoing (.inr rfl), found, hkind, Bool.eq_false_iff.mpr hout⟩

@[simp] theorem explains_recoverStatement : recoverStatement.Explains known fun _ _ => True := by
  refine ⟨trivial, fun halted _ => ?_⟩
  cases halted with
  | true => trivial
  | false =>
    refine (explains_node ..).mpr ((explains_bind ..).mpr ?_)
    exact (explains_reportHere_told ..).mono fun _ after hreported => ⟨fun _ => .inr hreported.1, trivial⟩

/-! ### Delimiters and ends of statements -/

/-- An opener that has been reported is covered from then on. -/
theorem explains_openDelimiter_told (kind : Kind) :
    (openDelimiter kind).Explains known fun _ after => known.told → after.covered :=
  ⟨trivial, fun _ _ => ⟨trivial, fun _ _ => ⟨trivial, fun _ _ htold => .inr (.inl htold)⟩⟩⟩

@[simp] theorem explains_openDelimiter (kind : Kind) : (openDelimiter kind).Explains known fun _ _ => True :=
  (explains_openDelimiter_told kind).mono fun _ _ _ => trivial

/-- A delimiter that is never closed is reported from its opener on, but the report is kept for the end. -/
@[simp] theorem explains_closeDelimiter (close : Kind) (construct : String) :
    (closeDelimiter close construct).Explains known fun _ _ => True := by
  refine ⟨trivial, fun opener? _ => ?_⟩
  refine (explains_bind (eat close) ..).mpr ((explains_eat close).mono fun closed after _ => ?_)
  cases closed with
  | true => trivial
  | false =>
    have hexpect {known : Known} : (expect close close.displayName >>= fun _ => pure ()).Explains known fun _ _ => True :=
      by simp
    refine ⟨trivial, fun ended _ => ?_⟩
    match opener?, ended with
    | some opener, true => exact ⟨trivial, fun span _ => ⟨.inr ⟨trivial, span, rfl, rfl⟩, fun _ _ => trivial⟩⟩
    | some _, false | none, _ => exact hexpect

@[simp] theorem explains_expectTerminator (what : String) :
    (expectTerminator what).Explains known fun _ _ => True := by
  simp [expectTerminator, Step.Allowed]

@[simp] theorem explains_expectSemicolon (what : String) : (expectSemicolon what).Explains known fun _ _ => True := by
  refine (explains_bind ..).mpr ((explains_eat .semicolon).mono fun eaten after _ => ?_)
  cases eaten with
  | true => trivial
  | false =>
    refine ⟨trivial, fun token? _ => ?_⟩
    cases token? with
    | none => trivial
    | some token => exact ⟨.inl rfl, fun _ _ => trivial⟩

/-! ### Collections -/

@[simp] theorem explains_startsExpression : startsExpression.Explains known fun _ _ => True := by simp [startsExpression]

@[simp] theorem explains_startsExpressionOrTable : startsExpressionOrTable.Explains known fun _ _ => True := by
  simp [startsExpressionOrTable]

@[simp] theorem explains_startsStatement : startsStatement.Explains known fun _ _ => True := by simp [startsStatement]

@[simp] theorem explains_expression : expression.Explains known fun _ _ => True := by simp [expression]

@[simp] theorem explains_expressionOrTable : expressionOrTable.Explains known fun _ _ => True := by
  simp [expressionOrTable]

@[simp] theorem explains_literal (kind : Kind) : (literal kind).Explains known fun _ _ => True := by
  cases kind <;> simp [literal, literalNode?]

@[simp] theorem explains_negativeLiteral : negativeLiteral.Explains known fun _ _ => True := by
  refine ⟨trivial, fun number _ => ?_⟩
  show (node (if number == .floatLit then .float else .integer) _).Explains _ _
  cases number == .floatLit <;> simp

@[simp] theorem explains_array : array.Explains known fun _ _ => True := by simp [array]

@[simp] theorem explains_elements : elements.Explains known fun _ _ => True := by simp [elements]

/-- A table whose brace has been reported is covered. -/
theorem explains_table_told : table.Explains known fun _ after => known.told → after.covered := by
  refine (explains_node ..).mpr ((explains_bind ..).mpr ?_)
  refine (explains_openDelimiter_told .braceOpen).mono fun _ opened hopened => ?_
  have hrest : (call .slots >>= fun _ => closeDelimiter .braceClose "table").Explains opened fun _ _ => True := by simp
  by_cases htold : known.told
  · exact (hrest.covered (hopened htold)).mono fun _ after hafter => ⟨nofun, fun _ => .inr hafter.2⟩
  · exact hrest.mono fun _ after _ => ⟨nofun, fun htold' => absurd htold' htold⟩

@[simp] theorem explains_table : table.Explains known fun _ _ => True := explains_table_told.mono fun _ _ _ => trivial

@[simp] theorem explains_constValue : constValue.Explains known fun _ _ => True := by
  refine (explains_bind ..).mpr (explains_current_kind.mono fun kind after hkind => ?_)
  obtain rfl | hother := Decidable.em (kind = .garbage)
  · exact explains_advanceGarbage hkind
  · split <;> first | exact absurd rfl hother | simp [Step.Allowed]

@[simp] theorem explains_callArguments : callArguments.Explains known fun _ _ => True := by simp [callArguments]

@[simp] theorem explains_arguments : arguments.Explains known fun _ _ => True := by simp [arguments]

@[simp] theorem explains_parameters : parameters.Explains known fun _ _ => True := by simp [parameters]

@[simp] theorem explains_checkVariadics (count : Nat) (variadics : List (Nat × Span)) :
    (checkVariadics count variadics).Explains known fun _ _ => True := by
  induction variadics generalizing known with
  | nil => trivial
  | cons variadic rest ih => simp [checkVariadics, ih, Step.Allowed]

@[simp] theorem explains_parameterList (variadics : List (Nat × Span)) (count : Nat) :
    (parameterList variadics count).Explains known fun _ _ => True := by
  rw [parameterList, explains_bind]
  have hends : (stopped <||> currentIs .parenClose).Explains known fun _ _ => True := by simp
  refine hends.mono fun ends after _ => ?_
  cases ends
  · refine (explains_bind ..).mpr (explains_current.mono fun kind _ _ => ?_)
    split <;> simp
  · simp

/-! ### Definitions -/

@[simp] theorem explains_body (owner : String) : (body owner).Explains known fun _ _ => True := by simp [body]

@[simp] theorem explains_path (separator : Kind) : (path separator).Explains known fun _ _ => True := by simp [path]

@[simp] theorem explains_functionDeclaration : functionDeclaration.Explains known fun _ _ => True := by
  simp [functionDeclaration]

@[simp] theorem explains_attributes : attributes.Explains known fun _ _ => True := by simp [attributes]

@[simp] theorem explains_attributesGoOn : attributesGoOn.Explains known fun _ _ => True := by simp [attributesGoOn]

@[simp] theorem explains_attributeList : attributeList.Explains known fun _ _ => True := by simp [attributeList]

@[simp] theorem explains_optionalAttributes : optionalAttributes.Explains known fun _ _ => True := by
  simp [optionalAttributes]

@[simp] theorem explains_memberValue (isNamed : Bool) (what : String) :
    (memberValue isNamed what).Explains known fun _ _ => True := by
  simp [memberValue]

@[simp] theorem explains_member : member.Explains known fun _ _ => True := by
  refine (explains_node ..).mpr ((explains_bind ..).mpr (explains_optionalAttributes.mono fun _ after _ => ?_))
  refine (explains_bind ..).mpr (explains_current.mono fun kind after _ => ?_)
  split <;> simp

@[simp] theorem explains_members : members.Explains known fun _ _ => True := by simp [members]

@[simp] theorem explains_classDeclaration : classDeclaration.Explains known fun _ _ => True := by simp [classDeclaration]

@[simp] theorem explains_enumEntries : enumEntries.Explains known fun _ _ => True := by simp [enumEntries]

@[simp] theorem explains_enumDeclaration : enumDeclaration.Explains known fun _ _ => True := by simp [enumDeclaration]

@[simp] theorem explains_constDeclaration : constDeclaration.Explains known fun _ _ => True := by
  simp [constDeclaration]

/-! ### Expressions -/

@[simp] theorem explains_parenthesized : parenthesized.Explains known fun _ _ => True := by simp [parenthesized]

@[simp] theorem explains_lambda : lambda.Explains known fun _ _ => True := by simp [lambda]

@[simp] theorem explains_anonymousFunction : anonymousFunction.Explains known fun _ _ => True := by
  simp [anonymousFunction]

@[simp] theorem explains_keywordOperand (kind : Kind) (hkind : kind ≠ .error) :
    (keywordOperand kind).Explains known fun _ _ => True := by
  simp [keywordOperand, hkind]

@[simp] theorem explains_prefixed : prefixed.Explains known fun _ _ => True := by simp [prefixed]

@[simp] theorem explains_tableOperand (allowed : Bool) : (tableOperand allowed).Explains known fun _ _ => True := by
  cases allowed with
  | true => exact explains_table
  | false =>
    refine (explains_bind ..).mpr ((explains_reportHere_told ..).mono fun _ after hreported => ?_)
    refine (explains_node ..).mpr (explains_table_told.mono fun _ _ hcovered => ⟨fun _ => hcovered hreported.1, trivial⟩)

@[simp] theorem explains_operand (tableAllowed : Bool) : (operand tableAllowed).Explains known fun _ _ => True := by
  refine (explains_bind ..).mpr (explains_current_kind.mono fun kind after hkind => ?_)
  obtain rfl | hother := Decidable.em (kind = .garbage)
  · exact (explains_bind ..).mpr (explains_advanceGarbage hkind)
  · split <;> first | exact absurd rfl hother | simp [Step.Allowed]

@[simp] theorem explains_suffix (found : Suffix) : (suffix found).Explains known fun _ _ => True := by
  cases found <;> simp [suffix]

theorem node_ne_error (found : Suffix) : found.node ≠ .error := by cases found <;> nofun

@[simp] theorem explains_operators (start power : Nat) : (operators start power).Explains known fun _ _ => True := by
  rw [operators, explains_bind]
  refine explains_stopped.mono fun halted after _ => ?_
  cases halted
  · refine (explains_bind ..).mpr (explains_current.mono fun kind after _ => ?_)
    refine ⟨trivial, fun afterLineBreak _ => ?_⟩
    simp only [Rule.bind]
    cases Suffix.of? power afterLineBreak kind with
    | none => trivial
    | some found =>
      exact (explains_suffix found).mono fun _ _ _ => ⟨fun herror => absurd herror (node_ne_error found), trivial⟩
  · trivial

@[simp] theorem explains_expressionOf (power : Nat) (tableAllowed : Bool) :
    (expressionOf power tableAllowed).Explains known fun _ _ => True := by
  refine (explains_bind ..).mpr ⟨trivial, fun descended _ => ?_⟩
  cases descended
  · exact explains_abandon (.inr rfl)
  · show (_ >>= _ : Rule Unit).Explains _ _
    simp [Step.Allowed]

@[simp] theorem explains_slot : slot.Explains known fun _ _ => True := by simp [slot, Step.Allowed]

@[simp] theorem explains_slots : slots.Explains known fun _ _ => True := by simp [slots]

/-! ### Statements -/

@[simp] theorem explains_block : block.Explains known fun _ _ => True := by simp [block]

@[simp] theorem explains_blockStatements : blockStatements.Explains known fun _ _ => True := by simp [blockStatements]

@[simp] theorem explains_parenHeader (construct : String) : (parenHeader construct).Explains known fun _ _ => True := by
  simp [parenHeader]

@[simp] theorem explains_ifStatement : ifStatement.Explains known fun _ _ => True := by simp [ifStatement]

@[simp] theorem explains_whileStatement : whileStatement.Explains known fun _ _ => True := by simp [whileStatement]

@[simp] theorem explains_doWhileStatement : doWhileStatement.Explains known fun _ _ => True := by
  simp [doWhileStatement]

@[simp] theorem explains_openHeader (statement : String) : (openHeader statement).Explains known fun _ _ => True := by
  simp [openHeader]

@[simp] theorem explains_closeHeader (opened : Bool) (construct : String) :
    (closeHeader opened construct).Explains known fun _ _ => True := by
  simp [closeHeader]

@[simp] theorem explains_optionalExpression : optionalExpression.Explains known fun _ _ => True := by
  simp [optionalExpression]

@[simp] theorem explains_localBindings : localBindings.Explains known fun _ _ => True := by simp [localBindings]

@[simp] theorem explains_localDeclaration (isStatement : Bool) :
    (localDeclaration isStatement).Explains known fun _ _ => True := by
  simp [localDeclaration]

@[simp] theorem explains_forStatement : forStatement.Explains known fun _ _ => True := by simp [forStatement]

@[simp] theorem explains_foreachStatement : foreachStatement.Explains known fun _ _ => True := by
  simp [foreachStatement]

@[simp] theorem explains_caseStatements : caseStatements.Explains known fun _ _ => True := by simp [caseStatements]

@[simp] theorem explains_caseClause : caseClause.Explains known fun _ _ => True := by simp [caseClause]

@[simp] theorem explains_defaultClause : defaultClause.Explains known fun _ _ => True := by simp [defaultClause]

@[simp] theorem explains_switchClauses (seenDefault : Bool) :
    (switchClauses seenDefault).Explains known fun _ _ => True := by
  rw [switchClauses, explains_bind]
  refine explains_stopped.mono fun halted _ _ => ?_
  cases halted
  · refine (explains_bind ..).mpr (explains_current.mono fun kind _ _ => ?_)
    split <;> simp
  · trivial

@[simp] theorem explains_switchStatement : switchStatement.Explains known fun _ _ => True := by simp [switchStatement]

@[simp] theorem explains_jumpStatement (kind : Kind) (keyword : String) (hkind : kind ≠ .error) :
    (jumpStatement kind keyword).Explains known fun _ _ => True := by
  simp [jumpStatement, hkind]

@[simp] theorem explains_returnStatement : returnStatement.Explains known fun _ _ => True := by simp [returnStatement]

@[simp] theorem explains_yieldStatement : yieldStatement.Explains known fun _ _ => True := by
  simp [yieldStatement, Step.Allowed]

@[simp] theorem explains_throwStatement : throwStatement.Explains known fun _ _ => True := by simp [throwStatement]

@[simp] theorem explains_varStatement : varStatement.Explains known fun _ _ => True := by simp [varStatement]

@[simp] theorem explains_tryStatement : tryStatement.Explains known fun _ _ => True := by simp [tryStatement]

@[simp] theorem explains_expressionStatement : expressionStatement.Explains known fun _ _ => True := by
  simp [expressionStatement]

@[simp] theorem explains_knownStatement : knownStatement.Explains known fun _ _ => True := by
  refine (explains_bind ..).mpr (explains_current.mono fun kind _ _ => ?_)
  split <;> simp [Step.Allowed]

theorem explains_statement : statement.Explains known fun _ _ => True := by
  refine (explains_bind ..).mpr ⟨trivial, fun descended _ => ?_⟩
  cases descended
  · exact explains_abandon (.inr rfl)
  · refine (explains_bind ..).mpr ((explains_bind ..).mpr (explains_current_kind.mono fun kind after hkind => ?_))
    have hascend {known : Known} : (ofStep .ascend).Explains known fun _ _ => True := ⟨trivial, fun _ _ => trivial⟩
    show (if kind == .garbage then _ else _ : Rule Unit).Explains _ _
    split
    · next hgarbage =>
      rw [eq_of_beq hgarbage] at hkind
      exact (explains_bind ..).mpr ((explains_advanceGarbage hkind).mono fun _ _ _ => hascend)
    · simp [Step.Allowed]

theorem explains_script : script.Explains known fun _ _ => True := by
  refine (explains_bind ..).mpr (explains_stopped.mono fun halted after _ => ?_)
  cases halted
  · refine (explains_bind ..).mpr ((explains_currentIs .braceClose).mono fun closes after _ => ?_)
    cases closes
    · simp
    · refine (explains_bind ..).mpr ((explains_reportHere_told ..).mono fun _ after hreported => ?_)
      exact (explains_bind ..).mpr ((explains_advanceAsError (.inl hreported.1)).mono fun _ _ _ => trivial)
  · trivial

/-- The rule of every nonterminal explains its error nodes, and skipping covers what has been reported. -/
theorem explains_ruleOf (nonterminal : Nonterminal) :
    (ruleOf nonterminal).Explains known fun _ after => nonterminal.Covers known → after.covered := by
  have hnothing {rule : Rule Unit} (hexplains : rule.Explains known fun _ _ => True) :
      rule.Explains known fun _ after => False → after.covered :=
    hexplains.mono fun _ _ _ => nofun
  cases nonterminal with
  | skipUntil recovery => exact explains_skipUntil recovery
  | skipToStatement => exact explains_skipToStatement
  | statement => exact hnothing explains_statement
  | script => exact hnothing explains_script
  | _ => exact hnothing (by simp [ruleOf])

end Grammar

/-! ### Whole parses -/

/-- Before anything has been placed nothing needs an explanation. -/
theorem State.explained_initial (limits : Limits) (source : String) :
    (State.initial limits (Lexed.ofSource source).tokens source.utf8ByteSize).Explained
      (Lexed.ofSource source).diagnostics 0 where
  tiled := (Lexed.tile_ofSource source).1
  garbage _ := Lexed.exists_diagnostic_of_garbage
  nodes := trivial
  last := nofun

theorem eachFrom_root_of_parseTokens {limits : Limits} {source : String} {parsed : Parsed}
    (hparse : parseTokens limits source.utf8ByteSize (Lexed.ofSource source) = .ok parsed) :
    Tree.EachFrom (fun start tree => tree.kind = .error → ∃ diagnostic ∈ parsed.diagnostics,
      start ≤ diagnostic.span.start ∧ diagnostic.span.start < start + tree.width) 0 parsed.root := by
  obtain ⟨after, hrun, hwithin, rfl⟩ := parseTokens_ok hparse
  have hinitial : (Known.elsewhere False).Holds _ _ _ := .elsewhere (State.explained_initial limits source) False.elim
  have hafter := Nonterminal.holds_of_run (fun _ _ => Grammar.explains_ruleOf _) _ _ _ _ _ _ hinitial hrun
  refine ⟨by simp [Tree.kind], hafter.toExplained.passTrivia.placePending.nodes.mono fun start tree hnode hkind => ?_⟩
  obtain ⟨offset, ⟨diagnostic, hmem, rfl⟩, hinside⟩ := hnode hkind hwithin
  refine ⟨diagnostic, List.mem_mergeSort.mpr ?_, hinside⟩
  obtain hgiven | hreport := List.mem_append.mp hmem
  · exact List.mem_append_left _ hgiven
  · exact List.mem_append_right _ (List.mem_reverse.mpr hreport)

/-- In every error node some diagnostic starts, so that there is none in a script without diagnostics. -/
theorem Script.exists_diagnostic_of_error {source : String} {limits : Limits} {script : Script}
    (hparse : Script.parse source limits = .ok script) :
    (∀ place ∈ script.root.places, place.tree.kind = .error → ∃ diagnostic ∈ script.diagnostics,
      place.start ≤ diagnostic.span.start ∧ diagnostic.span.start < place.start + place.tree.width) ∧
    (script.diagnostics = [] → ∀ place ∈ script.root.places, place.tree.kind ≠ .error) := by
  have hexplained : ∀ place ∈ script.root.places, place.tree.kind = .error → ∃ diagnostic ∈ script.diagnostics,
      place.start ≤ diagnostic.span.start ∧ diagnostic.span.start < place.start + place.tree.width := by
    obtain ⟨parsed, hparsed, rfl⟩ := Script.parse_ok hparse
    exact fun place hmem => (eachFrom_root_of_parseTokens hparsed).of_mem_placesFrom hmem
  refine ⟨hexplained, fun hclean place hmem hkind => ?_⟩
  obtain ⟨diagnostic, hdiagnostic, -⟩ := hexplained place hmem hkind
  rw [hclean] at hdiagnostic
  cases hdiagnostic

/-- The brace that is put under an error node has been reported as no expression before. -/
theorem Script.exists_diagnostic_of_unmatched : ∃ (script : Script) (place : Place) (diagnostic : Diagnostic),
    Script.parse "x = \x7d" .unbounded = .ok script ∧ place ∈ script.root.places ∧ place.tree.kind = .error ∧
      diagnostic ∈ script.diagnostics ∧ place.start ≤ diagnostic.span.start ∧
      diagnostic.span.start < place.start + place.tree.width := by
  have houtcome : (Script.outcome? "x = \x7d" .unbounded).any (fun outcome =>
      outcome.1.places.any fun place => place.tree.kind == .error) = true := by decide +kernel
  obtain ⟨script, clean, hparse, -, htest⟩ := Script.exists_of_outcome houtcome
  obtain ⟨place, hplace, hkind⟩ := List.any_eq_true.mp htest
  obtain ⟨diagnostic, hmem, hfrom, hto⟩ :=
    (Script.exists_diagnostic_of_error hparse).1 place hplace (eq_of_beq hkind)
  exact ⟨script, place, diagnostic, hparse, hplace, eq_of_beq hkind, hmem, hfrom, hto⟩

end Squirrel

import Squirrel.Proofs.Parse.Evaluation
import Squirrel.Proofs.Parse.Supply

/-!
# The grammar never moves past the end

Every rule that moves on without asking is called where a word has been seen: most of them by a rule that has chosen
between them by the kind of the word here, which is no word's kind past the end. The rules that skip ask whether anything
is left.
-/

namespace Squirrel

namespace Grammar

open Rule

variable {words : Nat}

/-! ### Small rules -/

@[simp] theorem supplied_call (nonterminal : Nonterminal) (ended : Unit → Nat → Prop) :
    (call nonterminal).Supplied words ended ↔ nonterminal.Ready words ∧ ended () 0 := Iff.rfl

@[simp] theorem supplied_nodeFrom (start : Nat) (kind : Kind) (inner : Rule Unit) (ended : Unit → Nat → Prop) :
    (nodeFrom start kind inner).Supplied words ended ↔ inner.Supplied words ended := Iff.rfl

@[simp] theorem supplied_node (kind : Kind) (inner : Rule Unit) (ended : Unit → Nat → Prop) :
    (node kind inner).Supplied words ended ↔ inner.Supplied words ended := by
  rw [node, supplied_bind, supplied_ofStep]
  exact ⟨fun hall => hall.2 0, fun hinner => ⟨Nat.zero_le words, fun _ => hinner⟩⟩

@[simp] theorem supplied_advance (hpos : 0 < words) : advance.Supplied words fun _ _ => True := ⟨hpos, fun _ => trivial⟩

/-- The kind of a word tells that there is one. -/
theorem supplied_current : current.Supplied words fun kind left => kind ≠ .error → 0 < left := by
  refine ⟨Nat.zero_le words, fun kind hkind => ?_⟩
  show 0 < if kind = .error then words else max words 1
  rw [if_neg hkind]
  omega

theorem supplied_stopped : stopped.Supplied words fun answer left => answer = false → 0 < left := by
  refine ⟨Nat.zero_le words, fun answer hanswer => ?_⟩
  rw [hanswer]
  show 0 < max words 1
  omega

theorem supplied_atEnd : atEnd.Supplied words fun answer left => words ≤ left ∧ (answer = false → 0 < left) := by
  refine ⟨Nat.zero_le words, fun answer => ?_⟩
  cases answer with
  | true => exact ⟨Nat.le_refl words, nofun⟩
  | false =>
    show words ≤ max words 1 ∧ (_ → 0 < max words 1)
    omega

@[simp] theorem supplied_stopped_any : stopped.Supplied words fun _ _ => True := supplied_stopped.mono fun _ _ _ => trivial

@[simp] theorem supplied_currentIn (set : TokenSet) : (currentIn set).Supplied words fun _ _ => True := by
  simp [currentIn, current, Step.needs]

theorem supplied_currentIs {kind : Kind} (hkind : kind ≠ .error) :
    (currentIs kind).Supplied words fun answer left => answer = true → 0 < left := by
  refine (supplied_bind ..).mpr (supplied_current.mono fun found left hleft hanswer => hleft ?_)
  rw [eq_of_beq hanswer]
  exact hkind

@[simp] theorem supplied_currentIs_any (kind : Kind) : (currentIs kind).Supplied words fun _ _ => True := by
  simp [currentIs, current, Step.needs]

/-- If the token here has a kind, there is one to move past. -/
theorem supplied_ifCurrentIs {α : Type} {kind : Kind} {yes no : Rule α} {ended : α → Nat → Prop} (hkind : kind ≠ .error)
    (hyes : ∀ left, 0 < left → yes.Supplied left ended) (hno : ∀ left, no.Supplied left ended) :
    (currentIs kind >>= fun answer => if answer = true then yes else no).Supplied words ended := by
  refine (supplied_bind ..).mpr ((supplied_currentIs hkind).mono fun answer left hleft => ?_)
  cases answer with
  | true => exact hyes left (hleft rfl)
  | false => exact hno left

@[simp] theorem supplied_eat {kind : Kind} (hkind : kind ≠ .error) : (eat kind).Supplied words fun _ _ => True :=
  supplied_ifCurrentIs hkind (fun left hpos => by simp [hpos]) fun left => by simp

@[simp] theorem supplied_reportOnce (offset : Nat) (diagnostic : Diagnostic) (ended : Unit → Nat → Prop) :
    (ofStep (.reportOnce offset diagnostic)).Supplied words ended ↔ ended () words :=
  ⟨fun hall => hall.2 (), fun hended => ⟨Nat.zero_le words, fun _ => hended⟩⟩

@[simp] theorem supplied_expect {kind : Kind} (hkind : kind ≠ .error) (what : String) :
    (expect kind what).Supplied words fun _ _ => True := by
  refine (supplied_bind ..).mpr ((supplied_eat hkind).mono fun eaten left _ => ?_)
  cases eaten with
  | true => trivial
  | false =>
    refine ⟨Nat.zero_le left, fun span => (supplied_bind atEnd ..).mpr (supplied_atEnd.mono fun ended left _ => ?_)⟩
    exact (supplied_bind ..).mpr ((supplied_reportOnce ..).mpr trivial)

/-- A report uses nothing up. -/
theorem supplied_reportHere_kept (kind : DiagnosticKind) (detail : Option String) :
    (reportHere kind detail).Supplied words fun _ left => words ≤ left := by
  refine ⟨Nat.zero_le words, fun span => (supplied_bind atEnd ..).mpr (supplied_atEnd.mono fun ranOut left hleft => ?_)⟩
  exact (supplied_reportOnce ..).mpr hleft.1

@[simp] theorem supplied_reportHere (kind : DiagnosticKind) (detail : Option String) :
    (reportHere kind detail).Supplied words fun _ _ => True :=
  (supplied_reportHere_kept kind detail).mono fun _ _ _ => trivial

/-! ### Skipping -/

@[simp] theorem supplied_abandon : abandon.Supplied words fun _ _ => True := by simp [abandon]

@[simp] theorem supplied_advanceAsError : advanceAsError.Supplied words fun _ _ => True := by
  refine (supplied_bind ..).mpr (supplied_atEnd.mono fun ended left hleft => ?_)
  cases ended with
  | true => trivial
  | false => simp [hleft.2 rfl]

@[simp] theorem supplied_advanceGarbage : advanceGarbage.Supplied words fun _ _ => True :=
  (supplied_bind ..).mpr (supplied_current.mono fun _ _ _ => supplied_advanceAsError)

/-- Something is done only if neither the input nor a limit has been reached. -/
theorem supplied_unlessStopped {α : Type} {yes no : Rule α} {ended : α → Nat → Prop} (hyes : ∀ left, yes.Supplied left ended)
    (hno : ∀ left, 0 < left → no.Supplied left ended) :
    (stopped >>= fun answer => if answer = true then yes else no).Supplied words ended := by
  refine (supplied_bind ..).mpr (supplied_stopped.mono fun answer left hleft => ?_)
  cases answer with
  | true => exact hyes left
  | false => exact hno left (hleft rfl)

theorem supplied_skipUntil (recovery : TokenSet) : (skipUntil recovery).Supplied words fun _ _ => True := by
  refine (supplied_bind ..).mpr ((supplied_currentIn recovery).mono fun found left _ => ?_)
  cases found with
  | true => trivial
  | false => exact supplied_unlessStopped (fun _ => trivial) fun left hpos => by simp [hpos, Nonterminal.Ready]

theorem supplied_skipToStatement (hpos : 0 < words) : skipToStatement.Supplied words fun _ _ => True := by
  refine (supplied_bind ..).mpr ((supplied_advance hpos).mono fun _ left _ => ?_)
  refine supplied_unlessStopped (fun _ => trivial) fun left hpos => ?_
  refine (supplied_bind ..).mpr ⟨Nat.zero_le left, fun kind => ?_⟩
  show (if TokenSet.statementSync.contains kind = true then (pure () : Rule Unit) else _).Supplied
    (if kind = .error then left else max left 1) _
  have hstill : 0 < if kind = .error then left else max left 1 := by split <;> omega
  split
  · trivial
  · exact ⟨hstill, trivial⟩

@[simp] theorem supplied_recover (kind : DiagnosticKind) (detail : String) (recovery : TokenSet) :
    (recover kind detail recovery).Supplied words fun _ _ => True := by
  simp [recover, Nonterminal.Ready]

@[simp] theorem supplied_recoverStatement : recoverStatement.Supplied words fun _ _ => True := by
  refine supplied_unlessStopped (fun _ => trivial) fun left hpos => (supplied_node ..).mpr ((supplied_bind ..).mpr ?_)
  exact (supplied_reportHere_kept ..).mono fun _ after hkept => ⟨Nat.lt_of_lt_of_le hpos hkept, trivial⟩

/-! ### Delimiters and ends of statements -/

@[simp] theorem supplied_openDelimiter (kind : Kind) (hpos : 0 < words) :
    (openDelimiter kind).Supplied words fun _ _ => True :=
  ⟨Nat.zero_le words, fun _ => ⟨Nat.zero_le words, fun _ => ⟨hpos, fun _ => trivial⟩⟩⟩

@[simp] theorem supplied_closeDelimiter {close : Kind} (hclose : close ≠ .error) (construct : String) :
    (closeDelimiter close construct).Supplied words fun _ _ => True := by
  refine ⟨Nat.zero_le words, fun opener? => ?_⟩
  refine (supplied_bind (eat close) ..).mpr ((supplied_eat hclose).mono fun closed left _ => ?_)
  cases closed with
  | true => trivial
  | false =>
    refine (supplied_bind atEnd ..).mpr (supplied_atEnd.mono fun ended left _ => ?_)
    match opener?, ended with
    | some opener, true => exact ⟨Nat.zero_le left, fun span => (supplied_reportOnce ..).mpr trivial⟩
    | some _, false | none, _ => exact (supplied_bind ..).mpr ((supplied_expect hclose _).mono fun _ _ _ => trivial)

@[simp] theorem supplied_expectTerminator (what : String) :
    (expectTerminator what).Supplied words fun _ _ => True := by
  simp [expectTerminator, atEnd, Step.needs]

@[simp] theorem supplied_expectSemicolon (what : String) : (expectSemicolon what).Supplied words fun _ _ => True := by
  have heat : (eat .semicolon).Supplied words fun _ _ => True := supplied_eat nofun
  refine (supplied_bind ..).mpr (heat.mono fun eaten left _ => ?_)
  cases eaten with
  | true => trivial
  | false =>
    refine ⟨Nat.zero_le left, fun token? => ?_⟩
    cases token? with
    | none => trivial
    | some token => exact (supplied_reportOnce ..).mpr trivial

/-! ### Collections -/

@[simp] theorem supplied_startsExpression : startsExpression.Supplied words fun _ _ => True := supplied_currentIn _

@[simp] theorem supplied_startsExpressionOrTable : startsExpressionOrTable.Supplied words fun _ _ => True := by
  simp [startsExpressionOrTable]

@[simp] theorem supplied_startsStatement : startsStatement.Supplied words fun _ _ => True := supplied_currentIn _

@[simp] theorem supplied_expression : expression.Supplied words fun _ _ => True := ⟨trivial, trivial⟩

@[simp] theorem supplied_expressionOrTable : expressionOrTable.Supplied words fun _ _ => True := ⟨trivial, trivial⟩

@[simp] theorem supplied_literal {kind : Kind} (hpos : kind ≠ .error → 0 < words) :
    (literal kind).Supplied words fun _ _ => True := by
  by_cases hkind : kind = .error
  · rw [hkind]
    trivial
  · rw [literal]
    split <;> simp [hpos hkind]

@[simp] theorem supplied_negativeLiteral (htwo : 2 ≤ words) : negativeLiteral.Supplied words fun _ _ => True := by
  refine ⟨Nat.zero_le words, fun number => (supplied_node ..).mpr ⟨?_, fun _ => ?_⟩⟩
  · exact Nat.le_of_succ_le htwo
  · exact supplied_advance (Nat.sub_pos_of_lt htwo)

/-- A number behind a minus sign is sure to be there. -/
theorem supplied_ifNumberFollows {α : Type} {yes no : Rule α} {ended : α → Nat → Prop}
    (hyes : ∀ left, 2 ≤ left → yes.Supplied left ended) (hno : no.Supplied words ended) :
    (ofStep .numberFollows >>= fun answer => if answer = true then yes else no).Supplied words ended := by
  refine ⟨Nat.zero_le words, fun answer => ?_⟩
  cases answer with
  | true => exact hyes (max words 2) (Nat.le_max_right words 2)
  | false => exact hno

@[simp] theorem supplied_array (hpos : 0 < words) : array.Supplied words fun _ _ => True := by
  simp [array, hpos, Nonterminal.Ready]

theorem supplied_elements : elements.Supplied words fun _ _ => True := by simp [elements, Nonterminal.Ready]

@[simp] theorem supplied_table (hpos : 0 < words) : table.Supplied words fun _ _ => True := by
  simp [table, hpos, Nonterminal.Ready]

@[simp] theorem supplied_constValue : constValue.Supplied words fun _ _ => True := by
  refine (supplied_bind ..).mpr (supplied_current.mono fun kind left hleft => ?_)
  by_cases hkind : kind = .error
  · rw [hkind]
    exact supplied_reportHere ..
  · have hpos := hleft hkind
    split
    · exact supplied_ifNumberFollows (fun left htwo => by simp [htwo]) (by simp)
    all_goals simp [hpos, Nonterminal.Ready]

@[simp] theorem supplied_callArguments : callArguments.Supplied words fun _ _ => True :=
  (supplied_node ..).mpr (supplied_ifCurrentIs nofun (fun left hpos => by simp [hpos, Nonterminal.Ready])
    fun left => by simp)

theorem supplied_arguments : arguments.Supplied words fun _ _ => True := by simp [arguments, Nonterminal.Ready]

@[simp] theorem supplied_parameters : parameters.Supplied words fun _ _ => True :=
  (supplied_node ..).mpr (supplied_ifCurrentIs nofun (fun left hpos => by simp [hpos, Nonterminal.Ready])
    fun left => by simp)

@[simp] theorem supplied_checkVariadics (count : Nat) (variadics : List (Nat × Span)) :
    (checkVariadics count variadics).Supplied words fun _ _ => True := by
  induction variadics generalizing words with
  | nil => trivial
  | cons variadic rest ih => simp [checkVariadics, ih, Step.needs]

theorem supplied_parameterList (variadics : List (Nat × Span)) (count : Nat) :
    (parameterList variadics count).Supplied words fun _ _ => True := by
  have hends : (stopped <||> currentIs .parenClose).Supplied words fun _ _ => True := by simp
  refine (supplied_bind ..).mpr (hends.mono fun ends left _ => ?_)
  cases ends
  · refine (supplied_bind ..).mpr (supplied_current.mono fun kind left hleft => ?_)
    split <;> simp [hleft, currentSpan, Step.needs, Step.sureAfter, Nonterminal.Ready]
  · simp

/-! ### Definitions -/

@[simp] theorem supplied_body (owner : String) : (body owner).Supplied words fun _ _ => True := by
  simp [body, Nonterminal.Ready]

theorem supplied_path {separator : Kind} (hseparator : separator ≠ .error) :
    (path separator).Supplied words fun _ _ => True := by
  simp [path, hseparator, Nonterminal.Ready]

@[simp] theorem supplied_functionDeclaration (hpos : 0 < words) :
    functionDeclaration.Supplied words fun _ _ => True := by
  simp [functionDeclaration, hpos, Nonterminal.Ready]

@[simp] theorem supplied_attributes (hpos : 0 < words) : attributes.Supplied words fun _ _ => True := by
  simp [attributes, hpos, Nonterminal.Ready]

@[simp] theorem supplied_attributesGoOn : attributesGoOn.Supplied words fun _ _ => True := by
  simp [attributesGoOn, Nonterminal.Ready]

theorem supplied_attributeList : attributeList.Supplied words fun _ _ => True := by
  have hends : (stopped <||> currentIs .attributeClose).Supplied words fun _ _ => True := by simp
  refine (supplied_bind ..).mpr (hends.mono fun ends left _ => ?_)
  cases ends with
  | true => trivial
  | false => exact supplied_ifCurrentIs nofun (fun left hpos => by simp [hpos]) fun left => by simp

@[simp] theorem supplied_optionalAttributes : optionalAttributes.Supplied words fun _ _ => True :=
  supplied_ifCurrentIs nofun (fun left hpos => by simp [hpos]) fun left => by simp

@[simp] theorem supplied_memberValue (isNamed : Bool) (what : String) :
    (memberValue isNamed what).Supplied words fun _ _ => True := by
  simp [memberValue]

@[simp] theorem supplied_member : member.Supplied words fun _ _ => True := by
  refine (supplied_node ..).mpr ((supplied_bind ..).mpr (supplied_optionalAttributes.mono fun _ left _ => ?_))
  refine (supplied_bind ..).mpr (supplied_current.mono fun kind left hleft => ?_)
  split <;> simp [hleft]

theorem supplied_members : members.Supplied words fun _ _ => True := by simp [members, Nonterminal.Ready]

@[simp] theorem supplied_classDeclaration (hpos : 0 < words) : classDeclaration.Supplied words fun _ _ => True := by
  have hrest {left : Nat} : Supplied (do
      if ← currentIs .braceOpen then
        openDelimiter .braceOpen
        call .members
        closeDelimiter .braceClose "class body"
      else
        let _ ← expect .braceOpen "`\x7b` to open class body") left fun _ _ => True :=
    supplied_ifCurrentIs nofun (fun left hpos => by simp [hpos, Nonterminal.Ready]) fun left => by simp
  simp [classDeclaration, hpos, hrest, Nonterminal.Ready]

theorem supplied_enumEntries : enumEntries.Supplied words fun _ _ => True := by
  have hends : (stopped <||> currentIs .braceClose).Supplied words fun _ _ => True := by simp
  refine (supplied_bind ..).mpr (hends.mono fun ends left _ => ?_)
  cases ends with
  | true => trivial
  | false =>
    exact supplied_ifCurrentIs nofun (fun left hpos => by simp [hpos, Nonterminal.Ready])
      fun left => by simp [Nonterminal.Ready]

@[simp] theorem supplied_enumDeclaration (hpos : 0 < words) : enumDeclaration.Supplied words fun _ _ => True := by
  have hrest {left : Nat} : Supplied (do
      if ← currentIs .braceOpen then
        openDelimiter .braceOpen
        call .enumEntries
        closeDelimiter .braceClose "enum body"
        let _ ← eat .semicolon
      else
        let _ ← expect .braceOpen "`\x7b` to open enum body") left fun _ _ => True :=
    supplied_ifCurrentIs nofun (fun left hpos => by simp [hpos, Nonterminal.Ready]) fun left => by simp
  simp [enumDeclaration, hpos, hrest]

@[simp] theorem supplied_constDeclaration (hpos : 0 < words) : constDeclaration.Supplied words fun _ _ => True := by
  simp [constDeclaration, hpos]

/-! ### Expressions -/

@[simp] theorem supplied_parenthesized (hpos : 0 < words) : parenthesized.Supplied words fun _ _ => True := by
  simp [parenthesized, hpos]

@[simp] theorem supplied_lambda (hpos : 0 < words) : lambda.Supplied words fun _ _ => True := by simp [lambda, hpos]

@[simp] theorem supplied_anonymousFunction (hpos : 0 < words) :
    anonymousFunction.Supplied words fun _ _ => True := by
  simp [anonymousFunction, hpos]

@[simp] theorem supplied_keywordOperand (kind : Kind) (hpos : 0 < words) :
    (keywordOperand kind).Supplied words fun _ _ => True := by
  simp [keywordOperand, hpos]

@[simp] theorem supplied_prefixed (hpos : 0 < words) : prefixed.Supplied words fun _ _ => True := by
  simp [prefixed, hpos, Nonterminal.Ready]

@[simp] theorem supplied_tableOperand (allowed : Bool) (hpos : 0 < words) :
    (tableOperand allowed).Supplied words fun _ _ => True := by
  cases allowed with
  | true => exact supplied_table hpos
  | false =>
    refine (supplied_bind ..).mpr ((supplied_reportHere_kept ..).mono fun _ left hkept => ?_)
    simp [Nat.lt_of_lt_of_le hpos hkept]

@[simp] theorem supplied_operand (tableAllowed : Bool) : (operand tableAllowed).Supplied words fun _ _ => True := by
  refine (supplied_bind ..).mpr (supplied_current.mono fun kind left hleft => ?_)
  by_cases hkind : kind = .error
  · rw [hkind]
    trivial
  · have hpos := hleft hkind
    split
    · exact supplied_ifNumberFollows (fun left htwo => by simp [htwo]) (by simp [hpos])
    all_goals simp [hpos]

@[simp] theorem supplied_suffix (found : Suffix) (hpos : 0 < words) :
    (suffix found).Supplied words fun _ _ => True := by
  cases found <;> simp [suffix, hpos, Nonterminal.Ready]

theorem supplied_operators (start power : Nat) : (operators start power).Supplied words fun _ _ => True := by
  refine supplied_unlessStopped (fun _ => trivial) fun left hpos => ?_
  refine (supplied_bind ..).mpr (supplied_current.mono fun kind left hleft => ⟨Nat.zero_le left, fun afterLineBreak => ?_⟩)
  by_cases hkind : kind = .error
  · rw [hkind]
    trivial
  · have hpos : 0 < left := hleft hkind
    simp only [Rule.bind]
    split
    · trivial
    · simp [hpos, Step.sureAfter, Nonterminal.Ready]

theorem supplied_expressionOf (power : Nat) (tableAllowed : Bool) :
    (expressionOf power tableAllowed).Supplied words fun _ _ => True := by
  simp [expressionOf, Step.needs, Nonterminal.Ready]

@[simp] theorem supplied_slot : slot.Supplied words fun _ _ => True := by
  refine (supplied_node ..).mpr ((supplied_bind ..).mpr (supplied_current.mono fun kind left hleft => ?_))
  by_cases hkind : kind = .error
  · rw [hkind]
    simp [Step.needs, Nonterminal.Ready]
  · have hpos : 0 < left := hleft hkind
    simp [hpos, Step.needs, Step.sureAfter, Nonterminal.Ready]

theorem supplied_slots : slots.Supplied words fun _ _ => True := by simp [slots, Nonterminal.Ready]

/-! ### Statements -/

@[simp] theorem supplied_block (hpos : 0 < words) : block.Supplied words fun _ _ => True := by
  simp [block, hpos, Nonterminal.Ready]

theorem supplied_blockStatements : blockStatements.Supplied words fun _ _ => True := by
  simp [blockStatements, Nonterminal.Ready]

@[simp] theorem supplied_parenHeader (construct : String) : (parenHeader construct).Supplied words fun _ _ => True :=
  supplied_ifCurrentIs nofun (fun left hpos => by simp [hpos]) fun left => by simp

@[simp] theorem supplied_ifStatement (hpos : 0 < words) : ifStatement.Supplied words fun _ _ => True := by
  have helse {left : Nat} : Supplied (do
      if ← currentIs .kwElse then
        node .elseStatement do
          advance
          body "`else` branch") left fun _ _ => True :=
    supplied_ifCurrentIs nofun (fun left hpos => by simp [hpos]) fun left => by simp
  refine (supplied_node ..).mpr ((supplied_bind ..).mpr ((supplied_advance hpos).mono fun _ left _ => ?_))
  exact supplied_ifCurrentIs nofun (fun left hpos => by simp [hpos, helse]) fun left => by simp [helse]

@[simp] theorem supplied_whileStatement (hpos : 0 < words) : whileStatement.Supplied words fun _ _ => True := by
  simp [whileStatement, hpos, Nonterminal.Ready]

@[simp] theorem supplied_doWhileStatement (hpos : 0 < words) : doWhileStatement.Supplied words fun _ _ => True := by
  simp [doWhileStatement, hpos]

@[simp] theorem supplied_openHeader (statement : String) : (openHeader statement).Supplied words fun _ _ => True :=
  supplied_ifCurrentIs nofun (fun left hpos => by simp [hpos]) fun left => by simp

@[simp] theorem supplied_closeHeader (opened : Bool) (construct : String) :
    (closeHeader opened construct).Supplied words fun _ _ => True := by
  simp [closeHeader]

@[simp] theorem supplied_optionalExpression : optionalExpression.Supplied words fun _ _ => True := by
  simp [optionalExpression]

theorem supplied_localBindings : localBindings.Supplied words fun _ _ => True := by
  have hvalue {left : Nat} : Supplied (do
      if ← currentIs .equals <||> currentIs .newSlot then
        advance
        expressionOrTable) left fun _ _ => True := by
    have hsign {left : Nat} : (currentIs .equals <||> currentIs .newSlot).Supplied left
        fun answer left => answer = true → 0 < left := by
      have hequals : (currentIs .equals).Supplied left fun answer left => answer = true → 0 < left :=
        supplied_currentIs nofun
      refine (supplied_orM ..).mpr (hequals.mono fun equals left hleft => ?_)
      cases equals with
      | true => exact fun _ => hleft rfl
      | false => exact supplied_currentIs nofun
    refine (supplied_bind ..).mpr (hsign.mono fun found left hleft => ?_)
    cases found with
    | true => simp [hleft rfl]
    | false => trivial
  exact supplied_ifCurrentIs nofun (fun left hpos => by simp [hpos, hvalue, Nonterminal.Ready]) fun left => by simp

@[simp] theorem supplied_localDeclaration (isStatement : Bool) (hpos : 0 < words) :
    (localDeclaration isStatement).Supplied words fun _ _ => True := by
  simp [localDeclaration, hpos, Nonterminal.Ready]

@[simp] theorem supplied_forStatement (hpos : 0 < words) : forStatement.Supplied words fun _ _ => True := by
  refine (supplied_node ..).mpr ((supplied_bind ..).mpr ((supplied_advance hpos).mono fun _ left _ => ?_))
  refine (supplied_bind ..).mpr ((supplied_openHeader _).mono fun opened left _ => ?_)
  exact supplied_ifCurrentIs nofun (fun left hpos => by simp [hpos]) fun left => by simp

@[simp] theorem supplied_foreachStatement (hpos : 0 < words) : foreachStatement.Supplied words fun _ _ => True := by
  simp [foreachStatement, hpos]

theorem supplied_caseStatements : caseStatements.Supplied words fun _ _ => True := by
  simp [caseStatements, Nonterminal.Ready]

@[simp] theorem supplied_caseClause (hpos : 0 < words) : caseClause.Supplied words fun _ _ => True := by
  simp [caseClause, hpos, Nonterminal.Ready]

@[simp] theorem supplied_defaultClause (hpos : 0 < words) : defaultClause.Supplied words fun _ _ => True := by
  simp [defaultClause, hpos, Nonterminal.Ready]

/-- A clause may be reported first. -/
theorem supplied_clause {seenDefault : Bool} {kind : DiagnosticKind} {clause rest : Rule Unit} (hpos : 0 < words)
    (hclause : ∀ left, 0 < left → clause.Supplied left fun _ _ => True)
    (hrest : ∀ left, rest.Supplied left fun _ _ => True) : Supplied (do
      if seenDefault then reportHere kind none
      clause
      rest) words fun _ _ => True := by
  have hboth {left : Nat} (hpos : 0 < left) : (clause >>= fun _ => rest).Supplied left fun _ _ => True :=
    (supplied_bind ..).mpr ((hclause left hpos).mono fun _ left _ => hrest left)
  cases seenDefault with
  | true =>
    refine (supplied_bind ..).mpr ((supplied_reportHere_kept ..).mono fun _ left hkept => ?_)
    exact hboth (Nat.lt_of_lt_of_le hpos hkept)
  | false => exact hboth hpos

theorem supplied_switchClauses (seenDefault : Bool) : (switchClauses seenDefault).Supplied words fun _ _ => True := by
  refine supplied_unlessStopped (fun _ => trivial) fun left hpos => ?_
  refine (supplied_bind ..).mpr (supplied_current.mono fun kind left hleft => ?_)
  split
  · trivial
  · exact supplied_clause (hleft nofun) (fun left hpos => supplied_caseClause hpos) fun left => ⟨trivial, trivial⟩
  · exact supplied_clause (hleft nofun) (fun left hpos => supplied_defaultClause hpos) fun left => ⟨trivial, trivial⟩
  · simp [Nonterminal.Ready]

@[simp] theorem supplied_switchStatement (hpos : 0 < words) : switchStatement.Supplied words fun _ _ => True := by
  refine (supplied_node ..).mpr ((supplied_bind ..).mpr ((supplied_advance hpos).mono fun _ left _ => ?_))
  refine (supplied_bind ..).mpr ((supplied_parenHeader _).mono fun _ left _ => ?_)
  exact supplied_ifCurrentIs nofun (fun left hpos => by simp [hpos, Nonterminal.Ready]) fun left => by simp

@[simp] theorem supplied_jumpStatement (kind : Kind) (keyword : String) (hpos : 0 < words) :
    (jumpStatement kind keyword).Supplied words fun _ _ => True := by
  simp [jumpStatement, hpos]

@[simp] theorem supplied_returnStatement (hpos : 0 < words) : returnStatement.Supplied words fun _ _ => True := by
  simp [returnStatement, hpos]

@[simp] theorem supplied_yieldStatement (hpos : 0 < words) : yieldStatement.Supplied words fun _ _ => True := by
  simp [yieldStatement, hpos, Step.needs]

@[simp] theorem supplied_throwStatement (hpos : 0 < words) : throwStatement.Supplied words fun _ _ => True := by
  simp [throwStatement, hpos]

@[simp] theorem supplied_varStatement (hpos : 0 < words) : varStatement.Supplied words fun _ _ => True := by
  simp [varStatement, hpos]

@[simp] theorem supplied_tryStatement (hpos : 0 < words) : tryStatement.Supplied words fun _ _ => True := by
  refine (supplied_node ..).mpr ((supplied_bind ..).mpr ((supplied_advance hpos).mono fun _ left _ => ?_))
  refine (supplied_bind ..).mpr ((supplied_body _).mono fun _ left _ => ?_)
  refine supplied_ifCurrentIs nofun (fun left hpos => ?_) fun left => by simp
  refine (supplied_node ..).mpr ((supplied_bind ..).mpr ((supplied_advance hpos).mono fun _ left _ => ?_))
  exact supplied_ifCurrentIs nofun (fun left hpos => by simp [hpos]) fun left => by simp

@[simp] theorem supplied_expressionStatement : expressionStatement.Supplied words fun _ _ => True := by
  simp [expressionStatement]

@[simp] theorem supplied_knownStatement : knownStatement.Supplied words fun _ _ => True := by
  refine (supplied_bind ..).mpr (supplied_current.mono fun kind left hleft => ?_)
  split <;> simp [hleft, Step.needs, Step.sureAfter]

theorem supplied_statement : statement.Supplied words fun _ _ => True := by
  simp [statement, Step.needs]

theorem supplied_script : script.Supplied words fun _ _ => True := by
  simp [script, Nonterminal.Ready]

/-- The rule of every nonterminal is sure of a word wherever it moves on. -/
theorem supplied_ruleOf (nonterminal : Nonterminal) (hready : nonterminal.Ready words) :
    (ruleOf nonterminal).Supplied words fun _ _ => True := by
  cases nonterminal with
  | script => exact supplied_script
  | statement => exact supplied_statement
  | blockStatements => exact supplied_blockStatements
  | caseStatements => exact supplied_caseStatements
  | switchClauses seenDefault => exact supplied_switchClauses seenDefault
  | localBindings => exact supplied_localBindings
  | expression power tableAllowed => exact supplied_expressionOf power tableAllowed
  | operators start power => exact supplied_operators start power
  | arguments => exact supplied_arguments
  | elements => exact supplied_elements
  | slots => exact supplied_slots
  | parameterList variadics count => exact supplied_parameterList variadics count
  | path separator => exact supplied_path hready
  | members => exact supplied_members
  | enumEntries => exact supplied_enumEntries
  | attributeList => exact supplied_attributeList
  | skipUntil recovery => exact supplied_skipUntil recovery
  | skipToStatement => exact supplied_skipToStatement hready

end Grammar

/-! ### Whole parses -/

/-- If the last token of a source is a word, no rule moves past the end of the input, whatever is wrong with the source
and whichever limit is exceeded on the way. -/
theorem Script.parse_ne_advancedPastEnd (source : String) (limits : Limits)
    (hlast : ∀ token ∈ (Lexed.ofSource source).tokens.getLast?, token.kind.isTrivia = false) :
    Script.parse source limits ≠ .error (.fault .advancedPastEnd) := by
  intro hparse
  have hsupplies : (State.initial limits (Lexed.ofSource source).tokens source.utf8ByteSize).Supplies 0 :=
    ⟨hlast, Nat.zero_le _⟩
  have hrun := Nonterminal.fares_of_run (fun nonterminal _ => Grammar.supplied_ruleOf nonterminal)
    (nestingBound (Lexed.ofSource source).tokens.length) .script 0 _ trivial hsupplies
  rw [Script.parse, parseTokens] at hparse
  generalize Nonterminal.run _ _ _ = outcome at hrun hparse
  cases outcome with
  | error fault =>
    simp only [Except.error.injEq, ParseError.fault.injEq] at hparse
    exact hrun hparse
  | ok after => cases hexceeded : after.exceeded? <;> simp [hexceeded] at hparse

/-- An `else` without an `if` is skipped up to the end. With a line break behind it the skipping goes on once too often. -/
theorem Script.parse_ne_advancedPastEnd_else :
    (∀ token ∈ (Lexed.ofSource "else").tokens.getLast?, token.kind.isTrivia = false) ∧
      Script.parse "else" .standard ≠ .error (.fault .advancedPastEnd) ∧
      Script.parse "else\n" .standard = .error (.fault .advancedPastEnd) := by
  have hlast : ∀ token ∈ (Lexed.ofSource "else").tokens.getLast?, token.kind.isTrivia = false := by
    rw [← Lexed.computed_eq]
    decide +kernel
  refine ⟨hlast, parse_ne_advancedPastEnd "else" .standard hlast, ?_⟩
  have hrun : (Nonterminal.run (nestingBound (Lexed.computed "else\n").tokens.length) .script
      (State.initial .standard (Lexed.computed "else\n").tokens "else\n".utf8ByteSize)).casesOn
        (fun fault => decide (fault = .advancedPastEnd)) (fun _ => false) = true := by decide +kernel
  rw [Script.parse, parseTokens, ← Lexed.computed_eq]
  generalize Nonterminal.run _ _ _ = outcome at hrun
  cases outcome with
  | error fault =>
    obtain rfl : fault = .advancedPastEnd := of_decide_eq_true hrun
    rfl
  | ok after => cases hrun

end Squirrel

import Squirrel.Proofs.Grammar.Nesting.Rule
import Squirrel.Proofs.Parse.Evaluation

/-!
# The limit on nesting

Between two levels that count, a parse nests at most three nodes in brackets: a table, the parameters of a function in it,
and an array as a default value there. Only through a table as a default value does the grammar come back to a table
without a level that counts.
-/

namespace Squirrel

/-- How many brackets of its own each nonterminal nests beyond those of the levels below it. -/
def Nonterminal.ownBrackets : Nonterminal → Nat
  | operators .. | members | enumEntries | attributeList => 3
  | slots => 2
  | parameterList .. => 1
  | _ => 0

/-- Calls that keep to the brackets of their nonterminal. -/
def NestingCalls (runCall : Nonterminal → State → Except Fault State) : Prop :=
  ∀ nonterminal state after, runCall nonterminal state = .ok after →
    state.NestsTo 0 .script nonterminal.ownBrackets after

namespace Grammar

open Rule

variable {runCall : Nonterminal → State → Except Fault State} {own : Nat}

/-! ### Building blocks -/

theorem nests_current : current.Nests runCall own := nests_ofStep _ rfl

theorem nests_currentSpan : currentSpan.Nests runCall own := nests_ofStep _ rfl

theorem nests_atEnd : atEnd.Nests runCall own := nests_ofStep _ rfl

theorem nests_stopped : stopped.Nests runCall own := nests_ofStep _ rfl

theorem nests_advance : advance.Nests runCall own := nests_ofStep _ rfl

theorem nests_currentIs {kind : Kind} : (currentIs kind).Nests runCall own :=
  nests_bind nests_current fun _ => nests_pure _

theorem nests_currentIn {set : TokenSet} : (currentIn set).Nests runCall own :=
  nests_bind nests_current fun _ => nests_pure _

theorem nests_eat {kind : Kind} : (eat kind).Nests runCall own :=
  nests_bind nests_currentIs fun _ => nests_ite (nests_bind nests_advance fun _ => nests_pure _) (nests_pure _)

theorem nests_expect {kind : Kind} {what : String} : (expect kind what).Nests runCall own := by
  refine nests_bind nests_eat fun _ => nests_ite (nests_pure _) ?_
  refine nests_bind nests_currentSpan fun _ => nests_bind nests_atEnd fun _ => ?_
  exact nests_bind (nests_ofStep _ rfl) fun _ => nests_pure _

theorem nests_reportHere {kind : DiagnosticKind} {detail : Option String} :
    (reportHere kind detail).Nests runCall own :=
  nests_bind nests_currentSpan fun _ => nests_bind nests_atEnd fun _ => nests_ofStep _ rfl

theorem nests_openDelimiter {kind : Kind} : (openDelimiter kind).Nests runCall own :=
  nests_bind nests_currentSpan fun _ => nests_bind (nests_ofStep _ rfl) fun _ => nests_advance

theorem nests_closeDelimiter {close : Kind} {construct : String} :
    (closeDelimiter close construct).Nests runCall own := by
  refine nests_bind (nests_ofStep _ rfl) fun opener? => nests_bind nests_eat fun _ => ?_
  refine nests_ite (nests_pure _) (nests_bind nests_atEnd fun ranOut => ?_)
  split
  · exact nests_bind nests_currentSpan fun _ => nests_ofStep _ rfl
  · exact nests_bind nests_expect fun _ => nests_pure _

theorem nests_abandon : abandon.Nests runCall own := nests_node (nests_pure _) rfl

theorem nests_advanceAsError : advanceAsError.Nests runCall own :=
  nests_bind nests_atEnd fun _ => nests_ite (nests_pure _) (nests_node nests_advance rfl)

theorem nests_advanceGarbage : advanceGarbage.Nests runCall own :=
  nests_bind nests_current fun _ => nests_advanceAsError

theorem nests_expectTerminator {what : String} : (expectTerminator what).Nests runCall own := by
  refine nests_bind ?_ fun _ => nests_ite (nests_pure _) nests_reportHere
  exact nests_orM nests_eat (nests_orM nests_atEnd (nests_orM nests_currentIs (nests_ofStep _ rfl)))

theorem nests_expectSemicolon {what : String} : (expectSemicolon what).Nests runCall own := by
  refine nests_bind nests_eat fun _ => nests_ite (nests_pure _) (nests_bind (nests_ofStep _ rfl) fun token? => ?_)
  cases token? with
  | none => exact nests_pure _
  | some token => exact nests_ofStep _ rfl

theorem nests_startsExpressionOrTable : startsExpressionOrTable.Nests runCall own :=
  nests_orM nests_currentIn nests_currentIs

theorem nests_literal {kind : Kind} : (literal kind).Nests runCall own := by
  rw [literal]
  split
  · exact nests_pure _
  · next node hliteral =>
    have hkind := forall_literalNode? (P := (·.isBracketed = false)) hliteral (by decide)
    exact nests_bind (nests_node nests_advance hkind) fun _ => nests_pure _

theorem nests_negativeLiteral : negativeLiteral.Nests runCall own := by
  refine nests_bind (nests_ofStep _ rfl) fun number => nests_node ?_ ?_
  · exact nests_bind nests_advance fun _ => nests_advance
  · split <;> rfl

theorem nests_checkVariadics {count : Nat} {variadics : List (Nat × Span)} :
    (checkVariadics count variadics).Nests runCall own := by
  induction variadics with
  | nil => exact nests_pure _
  | cons first rest ih =>
    exact nests_ite (nests_bind (nests_ofStep _ rfl) fun _ => ih) ih

section

variable (hcalls : NestingCalls runCall)

include hcalls

theorem nests_call {nonterminal : Nonterminal} (hown : nonterminal.ownBrackets ≤ own) :
    (call nonterminal).Nests runCall own := by
  intro state answer after hexec
  exact (hcalls nonterminal state after (run_of_exec_call hexec)).mono hown

/-- A nonterminal without brackets of its own. -/
theorem nests_closed {nonterminal : Nonterminal} (hown : nonterminal.ownBrackets = 0) :
    (call nonterminal).Nests runCall own :=
  nests_call hcalls (hown ▸ Nat.zero_le own)

theorem nests_skipUntil (recovery : TokenSet) : (skipUntil recovery).Nests runCall own := by
  refine nests_bind nests_currentIn fun _ => nests_ite (nests_pure _) ?_
  refine nests_bind nests_stopped fun _ => nests_ite (nests_pure _) ?_
  exact nests_bind nests_advance fun _ => nests_closed hcalls rfl

theorem nests_recover {kind : DiagnosticKind} {detail : String} {recovery : TokenSet} :
    (recover kind detail recovery).Nests runCall own := by
  refine nests_bind (nests_orM nests_currentIn nests_stopped) fun _ => nests_ite nests_reportHere ?_
  exact nests_node (nests_bind nests_reportHere fun _ => nests_closed hcalls rfl) rfl

theorem nests_skipToStatement : skipToStatement.Nests runCall own := by
  refine nests_bind nests_advance fun _ => nests_bind nests_stopped fun _ => nests_ite (nests_pure _) ?_
  exact nests_bind nests_currentIn fun _ => nests_ite (nests_pure _) (nests_closed hcalls rfl)

theorem nests_recoverStatement : recoverStatement.Nests runCall own := by
  refine nests_bind nests_stopped fun _ => nests_ite (nests_pure _) ?_
  exact nests_node (nests_bind nests_reportHere fun _ => nests_closed hcalls rfl) rfl

/-! ### Collections -/

theorem nests_array : array.Nests runCall 1 :=
  nests_brackets (nests_bind nests_openDelimiter fun _ =>
    nests_bind (nests_closed hcalls rfl) fun _ => nests_closeDelimiter)

theorem nests_elements : elements.Nests runCall own := by
  refine nests_bind (nests_orM nests_stopped nests_currentIs) fun _ => nests_ite (nests_pure _) ?_
  refine nests_bind nests_startsExpressionOrTable fun _ => nests_ite ?_ ?_
  · exact nests_bind (nests_closed hcalls rfl) fun _ => nests_bind nests_eat fun _ => nests_closed hcalls rfl
  · refine nests_bind (nests_recover hcalls) fun _ => nests_bind nests_eat fun _ => ?_
    exact nests_ite (nests_closed hcalls rfl) (nests_pure _)

theorem nests_tableInner : (do
      openDelimiter .braceOpen
      call .slots
      closeDelimiter .braceClose "table" : Rule Unit).Nests runCall 2 :=
  nests_bind nests_openDelimiter fun _ =>
    nests_bind (nests_call hcalls (Nat.le_refl 2)) fun _ => nests_closeDelimiter

theorem nests_table : table.Nests runCall 3 := nests_brackets (nests_tableInner hcalls)

theorem nests_constValue : constValue.Nests runCall 3 := by
  refine nests_bind nests_current fun kind => ?_
  split
  · exact nests_bind (nests_ofStep _ rfl) fun _ => nests_ite nests_negativeLiteral nests_reportHere
  · exact (nests_array hcalls).mono (by decide)
  · exact nests_table hcalls
  · exact nests_closed hcalls rfl
  · exact nests_closed hcalls rfl
  · exact nests_closed hcalls rfl
  · exact nests_advanceGarbage
  · exact nests_bind nests_literal fun _ => nests_ite (nests_pure _) nests_reportHere

/-- As the default of a parameter a table counts for one node only. -/
theorem nests_defaultValue : constValue.NestsTo runCall 0 .parameter 1 := by
  refine nests_bind nests_current fun kind => ?_
  split
  · exact (nests_bind (nests_ofStep _ rfl) fun _ => nests_ite nests_negativeLiteral nests_reportHere).under _
  · exact (nests_array hcalls).under _
  · exact nests_defaultTable (nests_tableInner hcalls)
  · exact (nests_closed hcalls rfl).under _
  · exact (nests_closed hcalls rfl).under _
  · exact (nests_closed hcalls rfl).under _
  · exact nests_advanceGarbage.under _
  · exact (nests_bind nests_literal fun _ => nests_ite (nests_pure _) nests_reportHere).under _

theorem nests_callArguments : callArguments.Nests runCall 1 := by
  refine nests_brackets (nests_bind nests_currentIs fun _ => nests_ite ?_ ?_)
  · exact nests_bind nests_openDelimiter fun _ => nests_bind (nests_closed hcalls rfl) fun _ => nests_closeDelimiter
  · exact nests_bind nests_expect fun _ => nests_pure _

theorem nests_arguments : arguments.Nests runCall own := by
  refine nests_bind (nests_orM nests_stopped nests_currentIs) fun _ => nests_ite (nests_pure _) ?_
  refine nests_bind nests_startsExpressionOrTable fun _ => nests_ite ?_ ?_
  · exact nests_bind (nests_closed hcalls rfl) fun _ => nests_bind nests_eat fun _ =>
      nests_ite (nests_closed hcalls rfl) (nests_pure _)
  · exact nests_bind (nests_recover hcalls) fun _ => nests_bind nests_eat fun _ =>
      nests_ite (nests_closed hcalls rfl) (nests_pure _)

theorem nests_parameters : parameters.Nests runCall 2 := by
  refine nests_brackets (nests_bind nests_currentIs fun _ => nests_ite ?_ ?_)
  · exact nests_bind nests_openDelimiter fun _ =>
      nests_bind (nests_call hcalls (Nat.le_refl 1)) fun _ => nests_closeDelimiter
  · exact nests_bind nests_expect fun _ => nests_pure _

theorem nests_parameterList (variadics : List (Nat × Span)) (count : Nat) :
    (parameterList variadics count).Nests runCall 1 := by
  have hrest {variadics : List (Nat × Span)} {count : Nat} :
      (call (.parameterList variadics count)).Nests runCall 1 := nests_call hcalls (Nat.le_refl 1)
  refine nests_bind (nests_orM nests_stopped nests_currentIs) fun _ => nests_ite nests_checkVariadics ?_
  refine nests_bind nests_current fun kind => ?_
  split
  · refine nests_bind (nests_parameter (nests_bind nests_advance fun _ => nests_bind nests_eat fun _ =>
      nests_ite (nests_defaultValue hcalls) ((nests_pure _).under _))) fun _ => ?_
    exact nests_bind nests_eat fun _ => nests_ite hrest nests_checkVariadics
  · refine nests_bind nests_currentSpan fun _ => nests_bind (nests_node nests_advance rfl) fun _ => ?_
    exact nests_bind nests_eat fun _ => nests_ite hrest nests_checkVariadics
  · refine nests_bind (nests_recover hcalls) fun _ => ?_
    exact nests_bind nests_eat fun _ => nests_ite hrest nests_checkVariadics

/-! ### Definitions -/

theorem nests_body {owner : String} : (body owner).Nests runCall own :=
  nests_bind nests_currentIn fun _ => nests_ite (nests_closed hcalls rfl) nests_reportHere

theorem nests_path (separator : Kind) : (path separator).Nests runCall own :=
  nests_bind nests_eat fun _ => nests_ite
    (nests_bind nests_expect fun _ => nests_ite (nests_closed hcalls rfl) (nests_pure _)) (nests_pure _)

theorem nests_functionDeclaration : functionDeclaration.Nests runCall 2 := by
  have hrest : (parameters >>= fun _ => body "function body").Nests runCall 2 :=
    nests_bind (nests_parameters hcalls) fun _ => nests_body hcalls
  refine nests_node (nests_bind nests_advance fun _ => nests_bind nests_expect fun _ => nests_ite ?_ hrest) rfl
  exact nests_bind (nests_closed hcalls rfl) fun _ => hrest

theorem nests_attributes : attributes.Nests runCall 3 :=
  nests_node (nests_bind nests_openDelimiter fun _ =>
    nests_bind (nests_call hcalls (Nat.le_refl 3)) fun _ => nests_closeDelimiter) rfl

theorem nests_attributesGoOn : attributesGoOn.Nests runCall 3 :=
  nests_bind (nests_orM nests_eat nests_currentIs) fun _ =>
    nests_ite (nests_call hcalls (Nat.le_refl 3)) (nests_pure _)

theorem nests_attributeList : attributeList.Nests runCall 3 := by
  refine nests_bind (nests_orM nests_stopped nests_currentIs) fun _ => nests_ite (nests_pure _) ?_
  refine nests_bind nests_currentIs fun _ => nests_ite ?_ ?_
  · refine nests_bind (nests_node ?_ rfl) fun _ => nests_attributesGoOn hcalls
    exact nests_bind nests_advance fun _ => nests_bind nests_expect fun _ =>
      nests_ite (nests_constValue hcalls) (nests_pure _)
  · refine nests_bind (nests_recover hcalls) fun _ => ?_
    exact nests_bind (nests_orM nests_currentIs nests_currentIs) fun _ =>
      nests_ite (nests_attributesGoOn hcalls) (nests_pure _)

theorem nests_optionalAttributes : optionalAttributes.Nests runCall 3 :=
  nests_bind nests_currentIs fun _ => nests_ite (nests_attributes hcalls) (nests_pure _)

theorem nests_memberValue {isNamed : Bool} {what : String} : (memberValue isNamed what).Nests runCall own := by
  have hend : (eat .semicolon >>= fun _ => (pure () : Rule Unit)).Nests runCall own :=
    nests_bind nests_eat fun _ => nests_pure _
  refine nests_ite (nests_bind nests_expect fun _ => nests_ite ?_ hend) hend
  exact nests_bind (nests_closed hcalls rfl) fun _ => hend

theorem nests_member : member.Nests runCall 3 := by
  refine nests_node (nests_bind (nests_optionalAttributes hcalls) fun _ => nests_bind nests_current fun kind => ?_) rfl
  split
  · exact nests_bind nests_eat fun _ => nests_bind nests_expect fun _ => nests_memberValue hcalls
  · exact nests_bind nests_eat fun _ => nests_bind nests_expect fun _ => nests_memberValue hcalls
  · exact nests_bind nests_openDelimiter fun _ => nests_bind (nests_closed hcalls rfl) fun _ =>
      nests_bind nests_closeDelimiter fun _ => nests_memberValue hcalls
  · exact (nests_functionDeclaration hcalls).mono (by decide)
  · exact nests_bind nests_advance fun _ =>
      nests_bind ((nests_parameters hcalls).mono (by decide)) fun _ => nests_body hcalls
  · exact nests_reportHere

theorem nests_members : members.Nests runCall 3 := by
  have hrest : (call .members).Nests runCall 3 := nests_call hcalls (Nat.le_refl 3)
  refine nests_bind (nests_orM nests_stopped nests_currentIs) fun _ => nests_ite (nests_pure _) ?_
  refine nests_bind nests_currentIn fun _ => nests_ite ?_ ?_
  · exact nests_bind (nests_member hcalls) fun _ => hrest
  · exact nests_bind (nests_recover hcalls) fun _ => hrest

theorem nests_classDeclaration : classDeclaration.Nests runCall 3 := by
  have hbody : (do
      optionalAttributes
      if ← currentIs .braceOpen then
        openDelimiter .braceOpen
        call .members
        closeDelimiter .braceClose "class body"
      else
        let _ ← expect .braceOpen "`\x7b` to open class body" : Rule Unit).Nests runCall 3 := by
    refine nests_bind (nests_optionalAttributes hcalls) fun _ => nests_bind nests_currentIs fun _ => nests_ite ?_ ?_
    · exact nests_bind nests_openDelimiter fun _ =>
        nests_bind (nests_call hcalls (Nat.le_refl 3)) fun _ => nests_closeDelimiter
    · exact nests_bind nests_expect fun _ => nests_pure _
  have hrest : (do
      if ← eat .kwExtends then
        let _ ← expect .id "base class after `extends`"
      optionalAttributes
      if ← currentIs .braceOpen then
        openDelimiter .braceOpen
        call .members
        closeDelimiter .braceClose "class body"
      else
        let _ ← expect .braceOpen "`\x7b` to open class body" : Rule Unit).Nests runCall 3 :=
    nests_bind nests_eat fun _ => nests_ite (nests_bind nests_expect fun _ => hbody) hbody
  refine nests_node (nests_bind nests_advance fun _ => nests_bind nests_expect fun _ => nests_ite ?_ hrest) rfl
  exact nests_bind (nests_closed hcalls rfl) fun _ => hrest

theorem nests_enumEntries : enumEntries.Nests runCall 3 := by
  have hrest : (call .enumEntries).Nests runCall 3 := nests_call hcalls (Nat.le_refl 3)
  refine nests_bind (nests_orM nests_stopped nests_currentIs) fun _ => nests_ite (nests_pure _) ?_
  refine nests_bind nests_currentIs fun _ => nests_ite ?_ ?_
  · refine nests_bind (nests_node ?_ rfl) fun _ => ?_
    · exact nests_bind nests_advance fun _ => nests_bind nests_eat fun _ =>
        nests_ite (nests_constValue hcalls) (nests_pure _)
    · exact nests_bind nests_eat fun _ => nests_ite hrest (nests_pure _)
  · refine nests_bind (nests_recover hcalls) fun _ => ?_
    exact nests_bind (nests_orM nests_currentIs nests_eat) fun _ => nests_ite hrest (nests_pure _)

theorem nests_enumDeclaration : enumDeclaration.Nests runCall 3 := by
  refine nests_node (nests_bind nests_advance fun _ => nests_bind nests_expect fun _ =>
    nests_bind (nests_optionalAttributes hcalls) fun _ => nests_bind nests_currentIs fun _ => nests_ite ?_ ?_) rfl
  · exact nests_bind nests_openDelimiter fun _ => nests_bind (nests_call hcalls (Nat.le_refl 3)) fun _ =>
      nests_bind nests_closeDelimiter fun _ => nests_bind nests_eat fun _ => nests_pure _
  · exact nests_bind nests_expect fun _ => nests_pure _

theorem nests_constDeclaration : constDeclaration.Nests runCall 3 := by
  refine nests_node (nests_bind nests_advance fun _ => nests_bind nests_expect fun _ =>
    nests_ite (nests_bind nests_expect fun _ => nests_ite ?_ (nests_pure _)) (nests_pure _)) rfl
  exact nests_bind (nests_constValue hcalls) fun _ => nests_expectTerminator

/-! ### Expressions -/

theorem nests_parenthesized : parenthesized.Nests runCall 1 :=
  nests_brackets (nests_bind nests_openDelimiter fun _ =>
    nests_bind (nests_closed hcalls rfl) fun _ => nests_closeDelimiter)

theorem nests_lambda : lambda.Nests runCall 2 :=
  nests_node (nests_bind nests_advance fun _ =>
    nests_bind (nests_parameters hcalls) fun _ => nests_closed hcalls rfl) rfl

theorem nests_anonymousFunction : anonymousFunction.Nests runCall 2 :=
  nests_node (nests_bind nests_advance fun _ =>
    nests_bind (nests_parameters hcalls) fun _ => nests_body hcalls) rfl

theorem nests_keywordOperand {kind : Kind} (hkind : kind.isBracketed = false) :
    (keywordOperand kind).Nests runCall own :=
  nests_node (nests_bind nests_advance fun _ => nests_closed hcalls rfl) hkind

theorem nests_prefixed : prefixed.Nests runCall own :=
  nests_node (nests_bind nests_advance fun _ => nests_closed hcalls rfl) rfl

theorem nests_tableOperand (allowed : Bool) : (tableOperand allowed).Nests runCall 3 :=
  nests_ite (nests_table hcalls)
    (nests_bind nests_reportHere fun _ => nests_node (nests_table hcalls) rfl)

theorem nests_operand (tableAllowed : Bool) : (operand tableAllowed).Nests runCall 3 := by
  have whole {rule : Rule Unit} (hrule : rule.Nests runCall 3) :
      (rule >>= fun _ => (pure true : Rule Bool)).Nests runCall 3 := nests_bind hrule fun _ => nests_pure _
  refine nests_bind nests_current fun kind => ?_
  split
  · exact nests_bind (nests_ofStep _ rfl) fun _ => nests_ite (whole nests_negativeLiteral) (whole (nests_prefixed hcalls))
  iterate 5 exact whole (nests_prefixed hcalls)
  · exact whole ((nests_parenthesized hcalls).mono (by decide))
  · exact whole ((nests_array hcalls).mono (by decide))
  · exact whole (nests_tableOperand hcalls _)
  · exact whole (nests_node nests_advance rfl)
  · exact whole (nests_node (nests_bind nests_advance fun _ => nests_bind nests_expect fun _ => nests_pure _) rfl)
  · exact whole ((nests_lambda hcalls).mono (by decide))
  · exact whole ((nests_anonymousFunction hcalls).mono (by decide))
  iterate 3 exact whole (nests_keywordOperand hcalls rfl)
  · refine whole (nests_node (nests_bind nests_advance fun _ => ?_) rfl)
    exact (nests_callArguments hcalls).mono (by decide)
  · exact whole nests_advanceGarbage
  · exact nests_literal

theorem nests_suffix (found : Suffix) : (suffix found).Nests runCall 1 := by
  cases found with
  | member => exact nests_bind nests_advance fun _ => nests_bind nests_expect fun _ => nests_pure _
  | index =>
    exact nests_bind nests_openDelimiter fun _ => nests_bind (nests_closed hcalls rfl) fun _ => nests_closeDelimiter
  | call => exact nests_callArguments hcalls
  | increment => exact nests_advance
  | ternary =>
    exact nests_bind nests_advance fun _ => nests_bind (nests_closed hcalls rfl) fun _ =>
      nests_bind nests_expect fun _ => nests_ite (nests_closed hcalls rfl) (nests_pure _)
  | assignment | update | binary => exact nests_bind nests_advance fun _ => nests_closed hcalls rfl

theorem nests_operators (start power : Nat) : (operators start power).Nests runCall 3 := by
  refine nests_bind nests_stopped fun _ => nests_ite (nests_pure _) ?_
  refine nests_bind nests_current fun kind => nests_bind (nests_ofStep _ rfl) fun afterLineBreak => ?_
  split
  · exact nests_pure _
  · next found _ =>
    have hkind : found.node.isBracketed = false := by cases found <;> rfl
    refine nests_bind (nests_nodeFrom ((nests_suffix hcalls found).mono (by decide)) hkind) fun _ => ?_
    exact nests_call hcalls (Nat.le_refl 3)

theorem nests_expressionOf (power : Nat) (tableAllowed : Bool) :
    (expressionOf power tableAllowed).Nests runCall own := by
  refine nests_descend (nests_bind (nests_ofStep _ rfl) fun start => ?_) nests_abandon
  refine nests_bind (nests_operand hcalls tableAllowed) fun _ => nests_ite ?_ ?_
  · exact nests_bind (nests_call hcalls (Nat.le_refl 3)) fun _ => nests_ascend
  · exact nests_bind nests_reportHere fun _ => nests_ascend

theorem nests_slot : slot.Nests runCall 2 := by
  refine nests_node (nests_bind nests_current fun _ => nests_bind (nests_ofStep _ rfl) fun _ => nests_ite ?_ ?_) rfl
  · exact nests_bind nests_advance fun _ => nests_bind nests_expect fun _ => nests_closed hcalls rfl
  refine nests_ite ?_ (nests_ite (nests_functionDeclaration hcalls) ?_)
  · exact nests_bind nests_openDelimiter fun _ => nests_bind (nests_closed hcalls rfl) fun _ =>
      nests_bind nests_closeDelimiter fun _ => nests_bind nests_expect fun _ =>
        nests_ite (nests_closed hcalls rfl) (nests_pure _)
  · exact nests_bind (nests_closed hcalls rfl) fun _ => nests_bind nests_expect fun _ =>
      nests_ite (nests_closed hcalls rfl) (nests_pure _)

theorem nests_slots : slots.Nests runCall 2 := by
  have hrest : (call .slots).Nests runCall 2 := nests_call hcalls (Nat.le_refl 2)
  refine nests_bind (nests_orM nests_stopped nests_currentIs) fun _ => nests_ite (nests_pure _) ?_
  refine nests_bind nests_currentIn fun _ => nests_ite ?_ ?_
  · exact nests_bind (nests_slot hcalls) fun _ => nests_bind nests_eat fun _ => hrest
  · refine nests_bind (nests_recover hcalls) fun _ => ?_
    exact nests_bind (nests_orM nests_currentIn nests_eat) fun _ => nests_ite hrest (nests_pure _)

/-! ### Statements -/

theorem nests_block : block.Nests runCall 1 :=
  nests_brackets (nests_bind nests_openDelimiter fun _ =>
    nests_bind (nests_closed hcalls rfl) fun _ => nests_closeDelimiter)

theorem nests_list {nonterminal : Nonterminal} {ends : Rule Bool} (hends : ends.Nests runCall own)
    (hown : nonterminal.ownBrackets = 0) : (do
      if ← ends then return
      else
        call .statement
        call nonterminal : Rule Unit).Nests runCall own :=
  nests_bind hends fun _ => nests_ite (nests_pure _)
    (nests_bind (nests_closed hcalls rfl) fun _ => nests_closed hcalls hown)

theorem nests_blockStatements : blockStatements.Nests runCall own :=
  nests_list hcalls (nests_orM nests_stopped nests_currentIs) rfl

theorem nests_caseStatements : caseStatements.Nests runCall own :=
  nests_list hcalls (nests_orM nests_stopped nests_currentIn) rfl

theorem nests_parenHeader {construct : String} : (parenHeader construct).Nests runCall own := by
  refine nests_bind nests_currentIs fun _ => nests_ite ?_ (nests_bind nests_expect fun _ => ?_)
  · exact nests_bind nests_openDelimiter fun _ => nests_bind (nests_closed hcalls rfl) fun _ => nests_closeDelimiter
  · exact nests_bind nests_currentIn fun _ => nests_ite
      (nests_bind (nests_closed hcalls rfl) fun _ => nests_bind nests_expect fun _ => nests_pure _) (nests_pure _)

theorem nests_ifStatement : ifStatement.Nests runCall 3 := by
  have hrest : (do
      body "`if` branch"
      if ← currentIs .kwElse then
        node .elseStatement do
          advance
          body "`else` branch" : Rule Unit).Nests runCall 3 :=
    nests_bind (nests_body hcalls) fun _ => nests_bind nests_currentIs fun _ => nests_ite
      (nests_node (nests_bind nests_advance fun _ => nests_body hcalls) rfl) (nests_pure _)
  refine nests_node (nests_bind nests_advance fun _ => nests_bind nests_currentIs fun _ => nests_ite ?_ ?_) rfl
  · exact nests_bind ((nests_parenthesized hcalls).mono (by decide)) fun _ => hrest
  · exact nests_bind nests_expect fun _ => hrest

theorem nests_whileStatement : whileStatement.Nests runCall own :=
  nests_node (nests_bind nests_advance fun _ => nests_bind (nests_parenHeader hcalls) fun _ =>
    nests_bind nests_currentIn fun _ => nests_ite (nests_closed hcalls rfl) (nests_pure _)) rfl

theorem nests_doWhileStatement : doWhileStatement.Nests runCall own := by
  have hend : (eat .semicolon >>= fun _ => (pure () : Rule Unit)).Nests runCall own :=
    nests_bind nests_eat fun _ => nests_pure _
  refine nests_node (nests_bind nests_advance fun _ => nests_bind (nests_body hcalls) fun _ => ?_) rfl
  exact nests_bind nests_expect fun _ => nests_ite (nests_bind (nests_parenHeader hcalls) fun _ => hend) hend

omit hcalls in
theorem nests_openHeader {statement : String} : (openHeader statement).Nests runCall own :=
  nests_bind nests_currentIs fun _ => nests_ite (nests_bind nests_openDelimiter fun _ => nests_pure _)
    (nests_bind nests_expect fun _ => nests_pure _)

omit hcalls in
theorem nests_closeHeader {opened : Bool} {construct : String} : (closeHeader opened construct).Nests runCall own :=
  nests_ite nests_closeDelimiter (nests_bind nests_expect fun _ => nests_pure _)

theorem nests_optionalExpression : optionalExpression.Nests runCall own :=
  nests_bind nests_currentIn fun _ => nests_ite (nests_closed hcalls rfl) (nests_pure _)

theorem nests_localBindings : localBindings.Nests runCall own := by
  refine nests_bind nests_currentIs fun _ => nests_ite ?_ nests_reportHere
  refine nests_bind (nests_node (nests_bind nests_advance fun _ => ?_) rfl) fun _ => ?_
  · exact nests_bind (nests_orM nests_currentIs nests_currentIs) fun _ => nests_ite
      (nests_bind nests_advance fun _ => nests_closed hcalls rfl) (nests_pure _)
  · exact nests_bind nests_eat fun _ => nests_ite (nests_closed hcalls rfl) (nests_pure _)

theorem nests_localDeclaration (isStatement : Bool) : (localDeclaration isStatement).Nests runCall own :=
  nests_node (nests_bind nests_advance fun _ => nests_bind (nests_closed hcalls rfl) fun _ =>
    nests_ite (nests_bind nests_eat fun _ => nests_pure _) (nests_pure _)) rfl

theorem nests_forStatement : forStatement.Nests runCall own := by
  refine nests_node (nests_bind nests_advance fun _ => nests_bind nests_openHeader fun opened => ?_) rfl
  have hrest : (do
      let _ ← expect .semicolon "`;` after `for` initializer"
      optionalExpression
      let _ ← expect .semicolon "`;` after `for` condition"
      optionalExpression
      closeHeader opened "`for` header"
      body "`for` body" : Rule Unit).Nests runCall own :=
    nests_bind nests_expect fun _ => nests_bind (nests_optionalExpression hcalls) fun _ =>
      nests_bind nests_expect fun _ => nests_bind (nests_optionalExpression hcalls) fun _ =>
        nests_bind nests_closeHeader fun _ => nests_body hcalls
  refine nests_bind nests_currentIs fun _ => nests_ite ?_ ?_
  · exact nests_bind (nests_localDeclaration hcalls false) fun _ => hrest
  · exact nests_bind (nests_optionalExpression hcalls) fun _ => hrest

theorem nests_foreachStatement : foreachStatement.Nests runCall own := by
  refine nests_node (nests_bind nests_advance fun _ => nests_bind nests_openHeader fun opened => ?_) rfl
  have hend : (do
      closeHeader opened "`foreach` header"
      body "`foreach` body" : Rule Unit).Nests runCall own :=
    nests_bind nests_closeHeader fun _ => nests_body hcalls
  have hrest : (do
      if ← expect .kwIn "`in`" then expression
      closeHeader opened "`foreach` header"
      body "`foreach` body" : Rule Unit).Nests runCall own :=
    nests_bind nests_expect fun _ => nests_ite (nests_bind (nests_closed hcalls rfl) fun _ => hend) hend
  refine nests_bind nests_expect fun _ => nests_ite (nests_bind nests_eat fun _ => nests_ite ?_ hrest) hrest
  exact nests_bind nests_expect fun _ => hrest

theorem nests_caseClause : caseClause.Nests runCall own :=
  nests_node (nests_bind nests_advance fun _ => nests_bind (nests_closed hcalls rfl) fun _ =>
    nests_bind nests_expect fun _ => nests_closed hcalls rfl) rfl

theorem nests_defaultClause : defaultClause.Nests runCall own :=
  nests_node (nests_bind nests_advance fun _ => nests_bind nests_expect fun _ => nests_closed hcalls rfl) rfl

theorem nests_switchClauses (seenDefault : Bool) : (switchClauses seenDefault).Nests runCall own := by
  refine nests_bind nests_stopped fun _ => nests_ite (nests_pure _) (nests_bind nests_current fun kind => ?_)
  have hcase : (caseClause >>= fun _ => call (.switchClauses seenDefault)).Nests runCall own :=
    nests_bind (nests_caseClause hcalls) fun _ => nests_closed hcalls rfl
  have hdefault : (defaultClause >>= fun _ => call (.switchClauses true)).Nests runCall own :=
    nests_bind (nests_defaultClause hcalls) fun _ => nests_closed hcalls rfl
  split
  · exact nests_pure _
  · exact nests_ite (nests_bind nests_reportHere fun _ => hcase) hcase
  · exact nests_ite (nests_bind nests_reportHere fun _ => hdefault) hdefault
  · exact nests_bind (nests_recover hcalls) fun _ => nests_closed hcalls rfl

theorem nests_switchStatement : switchStatement.Nests runCall own := by
  refine nests_node (nests_bind nests_advance fun _ => nests_bind (nests_parenHeader hcalls) fun _ =>
    nests_bind nests_currentIs fun _ => nests_ite ?_ ?_) rfl
  · exact nests_bind nests_openDelimiter fun _ => nests_bind (nests_closed hcalls rfl) fun _ => nests_closeDelimiter
  · exact nests_bind nests_expect fun _ => nests_pure _

omit hcalls in
theorem nests_jumpStatement {kind : Kind} {keyword : String} (hkind : kind.isBracketed = false) :
    (jumpStatement kind keyword).Nests runCall own :=
  nests_node (nests_bind nests_advance fun _ => nests_expectSemicolon) hkind

theorem nests_returnStatement : returnStatement.Nests runCall own := by
  have hend : (eat .semicolon >>= fun _ => (pure () : Rule Unit)).Nests runCall own :=
    nests_bind nests_eat fun _ => nests_pure _
  exact nests_node (nests_bind nests_advance fun _ => nests_bind nests_startsExpressionOrTable fun _ =>
    nests_ite (nests_bind (nests_closed hcalls rfl) fun _ => hend) hend) rfl

theorem nests_yieldStatement : yieldStatement.Nests runCall own :=
  nests_node (nests_bind nests_advance fun _ =>
    nests_bind (nests_andM nests_currentIn (nests_map (nests_ofStep _ rfl))) fun _ =>
    nests_ite (nests_bind (nests_closed hcalls rfl) fun _ => nests_expectTerminator) nests_expectTerminator) rfl

theorem nests_throwStatement : throwStatement.Nests runCall own :=
  nests_node (nests_bind nests_advance fun _ => nests_bind (nests_closed hcalls rfl) fun _ =>
    nests_bind nests_eat fun _ => nests_pure _) rfl

theorem nests_varStatement : varStatement.Nests runCall own := by
  have hend : (eat .semicolon >>= fun _ => (pure () : Rule Unit)).Nests runCall own :=
    nests_bind nests_eat fun _ => nests_pure _
  refine nests_node (nests_bind nests_advance fun _ => nests_bind nests_expect fun _ => nests_ite ?_ hend) rfl
  exact nests_bind nests_expect fun _ => nests_ite (nests_bind (nests_closed hcalls rfl) fun _ => hend) hend

theorem nests_tryStatement : tryStatement.Nests runCall own := by
  refine nests_node (nests_bind nests_advance fun _ => nests_bind (nests_body hcalls) fun _ =>
    nests_bind nests_currentIs fun _ => nests_ite ?_ (nests_bind nests_expect fun _ => nests_pure _)) rfl
  refine nests_node (nests_bind nests_advance fun _ => nests_bind nests_currentIs fun _ => nests_ite ?_ ?_) rfl
  · exact nests_bind nests_openDelimiter fun _ => nests_bind nests_expect fun _ =>
      nests_bind nests_closeDelimiter fun _ => nests_body hcalls
  · exact nests_bind nests_expect fun _ => nests_body hcalls

theorem nests_expressionStatement : expressionStatement.Nests runCall own :=
  nests_node (nests_bind (nests_closed hcalls rfl) fun _ => nests_bind nests_eat fun _ => nests_pure _) rfl

theorem nests_knownStatement : knownStatement.Nests runCall 3 := by
  refine nests_bind nests_current fun kind => ?_
  split
  · exact (nests_block hcalls).mono (by decide)
  · exact nests_node nests_advance rfl
  · exact nests_ifStatement hcalls
  · exact nests_whileStatement hcalls
  · exact nests_doWhileStatement hcalls
  · exact nests_switchStatement hcalls
  · exact nests_forStatement hcalls
  · exact nests_foreachStatement hcalls
  · exact nests_jumpStatement rfl
  · exact nests_jumpStatement rfl
  · exact nests_returnStatement hcalls
  · exact nests_yieldStatement hcalls
  · exact nests_localDeclaration hcalls true
  · exact nests_varStatement hcalls
  · exact nests_bind (nests_ofStep _ rfl) fun _ =>
      nests_ite ((nests_functionDeclaration hcalls).mono (by decide)) (nests_expressionStatement hcalls)
  · exact nests_classDeclaration hcalls
  · exact nests_tryStatement hcalls
  · exact nests_throwStatement hcalls
  · exact nests_constDeclaration hcalls
  · exact nests_enumDeclaration hcalls
  · exact nests_expressionStatement hcalls

theorem nests_statement : statement.Nests runCall own := by
  refine nests_descend (nests_bind nests_currentIs fun _ => nests_ite ?_ ?_) nests_abandon
  · exact nests_bind nests_advanceGarbage fun _ => nests_ascend
  refine nests_bind nests_currentIn fun _ => nests_ite ?_ ?_
  · exact nests_bind (nests_knownStatement hcalls) fun _ => nests_ascend
  · exact nests_bind (nests_recoverStatement hcalls) fun _ => nests_ascend

theorem nests_script : script.Nests runCall own := by
  refine nests_bind nests_stopped fun _ => nests_ite (nests_pure _) (nests_bind nests_currentIs fun _ => nests_ite ?_ ?_)
  · exact nests_bind nests_reportHere fun _ => nests_bind nests_advanceAsError fun _ => nests_closed hcalls rfl
  · exact nests_bind (nests_closed hcalls rfl) fun _ => nests_closed hcalls rfl

/-- Every nonterminal keeps to its brackets if those that it calls do. -/
theorem nests_ruleOf (nonterminal : Nonterminal) : (ruleOf nonterminal).Nests runCall nonterminal.ownBrackets := by
  cases nonterminal with
  | script => exact nests_script hcalls
  | statement => exact nests_statement hcalls
  | blockStatements => exact nests_blockStatements hcalls
  | caseStatements => exact nests_caseStatements hcalls
  | switchClauses seenDefault => exact nests_switchClauses hcalls seenDefault
  | localBindings => exact nests_localBindings hcalls
  | expression power tableAllowed => exact nests_expressionOf hcalls power tableAllowed
  | operators start power => exact nests_operators hcalls start power
  | arguments => exact nests_arguments hcalls
  | elements => exact nests_elements hcalls
  | slots => exact nests_slots hcalls
  | parameterList variadics count => exact nests_parameterList hcalls variadics count
  | path separator => exact nests_path hcalls separator
  | members => exact nests_members hcalls
  | enumEntries => exact nests_enumEntries hcalls
  | attributeList => exact nests_attributeList hcalls
  | skipUntil recovery => exact nests_skipUntil hcalls recovery
  | skipToStatement => exact nests_skipToStatement hcalls

end

end Grammar

/-! ### Whole parses -/

theorem nestingCalls_run (bound : Nat) : NestingCalls (Nonterminal.run bound) := by
  induction bound with
  | zero =>
    intro nonterminal state after hrun
    exact nomatch hrun
  | succ bound ih =>
    intro nonterminal state after hrun
    exact Grammar.nests_ruleOf ih nonterminal state () after (Rule.exec_of_run hrun)

theorem nestsWithin_root_of_parseTokens {limits : Limits} {limit sourceLength : Nat} {lexed : Lexed} {parsed : Parsed}
    (hlimit : limits.depth? = some limit) (hparse : parseTokens limits sourceLength lexed = .ok parsed) :
    parsed.root.NestsWithin .script (3 * limit) := by
  obtain ⟨after, hrun, -, rfl⟩ := parseTokens_ok hparse
  obtain ⟨-, -, hplaced⟩ := nestingCalls_run _ .script _ after hrun limit hlimit (Nat.zero_le _)
  have hafter : after.NestsWithin .script (3 * limit) := hplaced _ (Nat.le_refl _) (by rintro _ ⟨⟩)
  have hroot : after.passTrivia.placePending.NestsWithin .script (3 * limit) :=
    State.nestsWithin_placePending hafter
  exact Tree.nestsWithin_node fun child hmem => hroot child (List.mem_reverse.mp hmem)

/-- The limit on nesting bounds the brackets on every way down a tree, but for tables that are the default of a
parameter: each of those lets two more through. -/
theorem Script.brackets_le {source : String} {limits : Limits} {limit : Nat} {script : Script}
    (hlimit : limits.depth? = some limit) (hparse : Script.parse source limits = .ok script) {kinds : List Kind}
    (hdescent : script.root.Descent kinds) :
    Descent.brackets kinds ≤ 3 * limit + 2 * Descent.defaultTables .script kinds := by
  rw [Script.parse] at hparse
  split at hparse
  · simp at hparse
  · next parsed hparsed =>
    obtain rfl := Except.ok.inj hparse
    exact nestsWithin_root_of_parseTokens hlimit hparsed kinds hdescent

/-- A table in the default of a parameter of a function in a table, with a limit of two levels. -/
theorem Script.brackets_le_defaultTable :
    ∃ (script : Script) (kinds : List Kind),
      Script.parse "const X = {function f(a = {}) {}}" ⟨none, some 2⟩ = .ok script ∧ script.root.Descent kinds ∧
      Descent.brackets kinds = 3 ∧ Descent.defaultTables .script kinds = 1 ∧
      Descent.brackets kinds ≤ 3 * 2 + 2 * Descent.defaultTables .script kinds := by
  have houtcome : (Script.outcome? "const X = {function f(a = {}) {}}" ⟨none, some 2⟩).any (fun outcome =>
      outcome.1.descends [.script, .constDeclaration, .table, .tableSlot, .functionDeclaration, .parameters, .parameter,
        .table]) = true := by decide +kernel
  obtain ⟨script, clean, hparse, -, htest⟩ := Script.exists_of_outcome houtcome
  have hdescent := Tree.descent_of_descends htest
  exact ⟨script, _, hparse, hdescent, by decide, by decide, Script.brackets_le rfl hparse hdescent⟩

end Squirrel

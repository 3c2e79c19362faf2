import Squirrel.Proofs.Parse.Front

/-!
# The parts of the grammar behind a front

Every rule up to expressions does the same behind a front. Most rules neither learn a place nor tell one, so they are made
of parts that do the same; those that report look up the span here first, and what they report lies further on by as much
as that span.
-/

namespace Squirrel

/-- Calls that do the same behind any front. -/
def ShiftingCalls (runCall : Nonterminal → State → Except Fault State) : Prop :=
  ∀ front nonterminal state,
    runCall (Front.nonterminal front nonterminal) (front.state state) = (runCall nonterminal state).map front.state

/-- Whether a step neither learns nor tells a place. -/
def Step.isPlaceless {α : Type} : Step α → Bool
  | .currentSpan | .mark | .previous | .pushOpener _ | .popOpener | .report _ | .reportOnce .. => false
  | _ => true

/-- Whether a nonterminal remembers no place. -/
def Nonterminal.isPlaceless : Nonterminal → Bool
  | .operators .. | .parameterList .. => false
  | _ => true

namespace Rule

variable {runCall : Nonterminal → State → Except Fault State} {front : Front} {state : State} {α β : Type}

theorem shifts_ofStep (step : Step α) (hplaceless : step.isPlaceless = true) : (ofStep step).Shifts runCall := by
  intro front state
  have hsame : step.looksBack = false ∧ step.shift front = step ∧ step.answer front = id := by
    cases step with
    | currentSpan | mark | previous | pushOpener | popOpener | report | reportOnce => exact nomatch hplaceless
    | _ => exact ⟨rfl, rfl, rfl⟩
  obtain ⟨hback, hshift, hanswer⟩ := hsame
  have hstep : (ofStep (step.shift front)).ShiftsAt runCall front (step.answer front) (ofStep step) state :=
    shiftsAt_ofStep step hback
  rwa [hshift, hanswer] at hstep

theorem shiftsAt_report (diagnostic : Diagnostic) :
    (ofStep (.report (diagnostic.shift front.length))).ShiftsAt runCall front id (ofStep (.report diagnostic)) state :=
  shiftsAt_ofStep (.report diagnostic) rfl

theorem shiftsAt_reportOnce (offset : Nat) (diagnostic : Diagnostic) :
    (ofStep (.reportOnce (offset + front.length) (diagnostic.shift front.length))).ShiftsAt runCall front id
      (ofStep (.reportOnce offset diagnostic)) state :=
  shiftsAt_ofStep (.reportOnce offset diagnostic) rfl

/-- What follows the span of the token here lies further on by as much as the span. -/
theorem shifts_currentSpan {next : Span → Rule β} (hnext : ∀ front span state,
    (next (span.shift front.length)).ShiftsAt runCall front id (next span) state) :
    (Grammar.currentSpan >>= next).Shifts runCall :=
  fun front _ => (shiftsAt_ofStep .currentSpan rfl).bind fun span after _ => hnext front span after

end Rule

namespace Grammar

open Rule

variable {runCall : Nonterminal → State → Except Fault State} {front : Front} {state : State}

/-! ### Building blocks -/

theorem shifts_current : current.Shifts runCall := shifts_ofStep _ rfl

theorem shifts_atEnd : atEnd.Shifts runCall := shifts_ofStep _ rfl

theorem shifts_stopped : stopped.Shifts runCall := shifts_ofStep _ rfl

theorem shifts_advance : advance.Shifts runCall := shifts_ofStep _ rfl

theorem shifts_currentIs {kind : Kind} : (currentIs kind).Shifts runCall :=
  shifts_bind shifts_current fun _ => shifts_pure _

theorem shifts_currentIn {set : TokenSet} : (currentIn set).Shifts runCall :=
  shifts_bind shifts_current fun _ => shifts_pure _

theorem shifts_eat {kind : Kind} : (eat kind).Shifts runCall :=
  shifts_bind shifts_currentIs fun _ => shifts_ite (shifts_bind shifts_advance fun _ => shifts_pure _) (shifts_pure _)

theorem shifts_expect {kind : Kind} {what : String} : (expect kind what).Shifts runCall := by
  refine shifts_bind shifts_eat fun _ => shifts_ite (shifts_pure _) ?_
  apply shifts_currentSpan
  intro front span state
  apply (shifts_atEnd front state).bind
  intro ranOut after _
  let missing (problem : DiagnosticKind) : Diagnostic :=
    (Diagnostic.report problem span (some ("expected " ++ what))).withExpected [kind]
  have hreport (problem : DiagnosticKind) :
      (ofStep (.reportOnce (span.start + front.length) ((missing problem).shift front.length))).ShiftsAt runCall front id
        (ofStep (.reportOnce span.start (missing problem))) after := shiftsAt_reportOnce _ _
  exact (hreport _).bind fun _ after _ => shifts_pure false front after

theorem shift_reportAt (offset : Nat) (span : Span) (ranOut : Bool) (kind : DiagnosticKind) (detail : Option String) :
    (reportAt span ranOut kind detail).shift offset = reportAt (span.shift offset) ranOut kind detail := by
  rw [reportAt.eq_def, reportAt.eq_def]
  split <;> rfl

theorem shifts_reportHere {kind : DiagnosticKind} {detail : Option String} :
    (reportHere kind detail).Shifts runCall := by
  apply shifts_currentSpan
  intro front span state
  apply (shifts_atEnd front state).bind
  intro ranOut after _
  show (ofStep (.reportOnce _ (reportAt (span.shift front.length) ranOut kind detail))).ShiftsAt runCall front id _ _
  rw [← shift_reportAt]
  exact shiftsAt_reportOnce _ _

theorem shifts_openDelimiter {kind : Kind} : (openDelimiter kind).Shifts runCall := by
  apply shifts_currentSpan
  intro front span state
  exact (shiftsAt_ofStep (.pushOpener ⟨kind, span⟩) rfl).bind fun _ after _ => shifts_advance front after

theorem shifts_closeDelimiter {close : Kind} {construct : String} :
    (closeDelimiter close construct).Shifts runCall := by
  intro front state
  apply (shiftsAt_ofStep .popOpener rfl).bind
  intro opener? state _
  apply (shifts_eat front state).bind
  intro closed state _
  cases closed with
  | true => exact shifts_pure _ front state
  | false =>
    apply (shifts_atEnd front state).bind
    intro ranOut state _
    have hmissing : (expect close close.displayName >>= fun _ => (pure () : Rule Unit)).Shifts runCall :=
      shifts_bind shifts_expect fun _ => shifts_pure ()
    cases opener? with
    | none => cases ranOut <;> exact hmissing front state
    | some opener =>
      cases ranOut with
      | false => exact hmissing front state
      | true =>
        -- the opener and the end of the input both lie further on
        apply (shiftsAt_ofStep .currentSpan rfl).bind
        intro span state _
        let unclosed := Diagnostic.report (unclosedKind opener.kind) ⟨opener.span.start, span.stop⟩
          (some ("expected " ++ close.displayName))
        let started : Related := ⟨opener.span, construct ++ " started here"⟩
        have hreport : (ofStep (.reportOnce (span.stop + front.length)
            ((unclosed.withRelated started).shift front.length))).ShiftsAt runCall front id
              (ofStep (.reportOnce span.stop (unclosed.withRelated started))) state := shiftsAt_reportOnce _ _
        rw [Diagnostic.shift_withRelated] at hreport
        exact hreport

theorem shifts_abandon : abandon.Shifts runCall := shifts_node (shifts_pure _)

theorem shifts_advanceAsError : advanceAsError.Shifts runCall :=
  shifts_bind shifts_atEnd fun _ => shifts_ite (shifts_pure _) (shifts_node shifts_advance)

theorem shifts_advanceGarbage : advanceGarbage.Shifts runCall :=
  shifts_bind shifts_current fun _ => shifts_advanceAsError

theorem shifts_expectTerminator {what : String} : (expectTerminator what).Shifts runCall := by
  refine shifts_bind ?_ fun _ => shifts_ite (shifts_pure _) shifts_reportHere
  exact shifts_orM shifts_eat (shifts_orM shifts_atEnd (shifts_orM shifts_currentIs (shifts_ofStep _ rfl)))

theorem shifts_startsExpressionOrTable : startsExpressionOrTable.Shifts runCall :=
  shifts_orM shifts_currentIn shifts_currentIs

theorem shifts_literal {kind : Kind} : (literal kind).Shifts runCall := by
  rw [literal]
  split
  · exact shifts_pure _
  · exact shifts_bind (shifts_node shifts_advance) fun _ => shifts_pure _

theorem shifts_negativeLiteral : negativeLiteral.Shifts runCall := by
  refine shifts_bind (shifts_ofStep _ rfl) fun number => shifts_node ?_
  exact shifts_bind shifts_advance fun _ => shifts_advance

theorem shiftsAt_checkVariadics {count : Nat} (variadics : List (Nat × Span)) :
    (checkVariadics count (variadics.map fun variadic => (variadic.1, variadic.2.shift front.length))).ShiftsAt runCall
      front id (checkVariadics count variadics) state := by
  induction variadics generalizing state with
  | nil => exact shifts_pure () front state
  | cons first rest ih =>
    rw [List.map_cons, checkVariadics, checkVariadics]
    by_cases hlast : first.1 + 1 ≠ count
    · rw [if_pos hlast, if_pos hlast]
      exact (shiftsAt_report (.report .variadicNotLast first.2 none)).bind fun _ _ _ => ih
    · rw [if_neg hlast, if_neg hlast]
      exact ih

section

variable (hcalls : ShiftingCalls runCall)

include hcalls

/-- A call behind a front, of the nonterminal that remembers places further on. -/
theorem shiftsAt_call (nonterminal : Nonterminal) :
    (call (front.nonterminal nonterminal)).ShiftsAt runCall front id (call nonterminal) state := by
  rw [ShiftsAt]
  simp only [call, exec, hcalls front nonterminal state]
  cases runCall nonterminal state <;> rfl

theorem shifts_call (nonterminal : Nonterminal) (hplaceless : nonterminal.isPlaceless = true) :
    (call nonterminal).Shifts runCall := by
  intro front state
  have hsame : front.nonterminal nonterminal = nonterminal := by
    cases nonterminal with
    | operators | parameterList => exact nomatch hplaceless
    | _ => rfl
  have hcall : (call (front.nonterminal nonterminal)).ShiftsAt runCall front id (call nonterminal) state :=
    shiftsAt_call hcalls nonterminal
  rwa [hsame] at hcall

theorem shifts_skipUntil (recovery : TokenSet) : (skipUntil recovery).Shifts runCall := by
  refine shifts_bind shifts_currentIn fun _ => shifts_ite (shifts_pure _) ?_
  refine shifts_bind shifts_stopped fun _ => shifts_ite (shifts_pure _) ?_
  exact shifts_bind shifts_advance fun _ => shifts_call hcalls _ rfl

theorem shifts_recover {kind : DiagnosticKind} {detail : String} {recovery : TokenSet} :
    (recover kind detail recovery).Shifts runCall := by
  refine shifts_bind (shifts_orM shifts_currentIn shifts_stopped) fun _ => shifts_ite shifts_reportHere ?_
  exact shifts_node (shifts_bind shifts_reportHere fun _ => shifts_call hcalls _ rfl)

theorem shifts_skipToStatement : skipToStatement.Shifts runCall := by
  refine shifts_bind shifts_advance fun _ => shifts_bind shifts_stopped fun _ => shifts_ite (shifts_pure _) ?_
  exact shifts_bind shifts_currentIn fun _ => shifts_ite (shifts_pure _) (shifts_call hcalls _ rfl)

theorem shifts_recoverStatement : recoverStatement.Shifts runCall := by
  refine shifts_bind shifts_stopped fun _ => shifts_ite (shifts_pure _) ?_
  exact shifts_node (shifts_bind shifts_reportHere fun _ => shifts_call hcalls _ rfl)

/-! ### Collections -/

theorem shifts_array : array.Shifts runCall :=
  shifts_node (shifts_bind shifts_openDelimiter fun _ =>
    shifts_bind (shifts_call hcalls _ rfl) fun _ => shifts_closeDelimiter)

theorem shifts_elements : elements.Shifts runCall := by
  refine shifts_bind (shifts_orM shifts_stopped shifts_currentIs) fun _ => shifts_ite (shifts_pure _) ?_
  refine shifts_bind shifts_startsExpressionOrTable fun _ => shifts_ite ?_ ?_
  · exact shifts_bind (shifts_call hcalls _ rfl) fun _ => shifts_bind shifts_eat fun _ => shifts_call hcalls _ rfl
  · refine shifts_bind (shifts_recover hcalls) fun _ => shifts_bind shifts_eat fun _ => ?_
    exact shifts_ite (shifts_call hcalls _ rfl) (shifts_pure _)

theorem shifts_table : table.Shifts runCall :=
  shifts_node (shifts_bind shifts_openDelimiter fun _ =>
    shifts_bind (shifts_call hcalls _ rfl) fun _ => shifts_closeDelimiter)

theorem shifts_constValue : constValue.Shifts runCall := by
  refine shifts_bind shifts_current fun kind => ?_
  split
  · exact shifts_bind (shifts_ofStep _ rfl) fun _ => shifts_ite shifts_negativeLiteral shifts_reportHere
  · exact shifts_array hcalls
  · exact shifts_table hcalls
  · exact shifts_call hcalls _ rfl
  · exact shifts_call hcalls _ rfl
  · exact shifts_call hcalls _ rfl
  · exact shifts_advanceGarbage
  · exact shifts_bind shifts_literal fun _ => shifts_ite (shifts_pure _) shifts_reportHere

theorem shifts_callArguments : callArguments.Shifts runCall := by
  refine shifts_node (shifts_bind shifts_currentIs fun _ => shifts_ite ?_ ?_)
  · exact shifts_bind shifts_openDelimiter fun _ => shifts_bind (shifts_call hcalls _ rfl) fun _ => shifts_closeDelimiter
  · exact shifts_bind shifts_expect fun _ => shifts_pure _

theorem shifts_arguments : arguments.Shifts runCall := by
  refine shifts_bind (shifts_orM shifts_stopped shifts_currentIs) fun _ => shifts_ite (shifts_pure _) ?_
  refine shifts_bind shifts_startsExpressionOrTable fun _ => shifts_ite ?_ ?_
  · exact shifts_bind (shifts_call hcalls _ rfl) fun _ => shifts_bind shifts_eat fun _ =>
      shifts_ite (shifts_call hcalls _ rfl) (shifts_pure _)
  · exact shifts_bind (shifts_recover hcalls) fun _ => shifts_bind shifts_eat fun _ =>
      shifts_ite (shifts_call hcalls _ rfl) (shifts_pure _)

/-- A list of parameters starts with no variadic ones, which are the same wherever it stands. -/
theorem shifts_parameters : parameters.Shifts runCall := by
  have hlist : (call (.parameterList [] 0)).Shifts runCall := fun _ _ => shiftsAt_call hcalls (.parameterList [] 0)
  refine shifts_node (shifts_bind shifts_currentIs fun _ => shifts_ite ?_ ?_)
  · exact shifts_bind shifts_openDelimiter fun _ => shifts_bind hlist fun _ => shifts_closeDelimiter
  · exact shifts_bind shifts_expect fun _ => shifts_pure _

theorem shiftsAt_parameterList (variadics : List (Nat × Span)) (count : Nat) :
    (parameterList (variadics.map fun variadic => (variadic.1, variadic.2.shift front.length)) count).ShiftsAt runCall
      front id (parameterList variadics count) state := by
  -- another parameter, or the check at the end of the list
  have hmore (variadics : List (Nat × Span)) (more all : Nat) (state : State) :
      (eat .comma >>= fun again => if again = true then call (front.nonterminal (.parameterList variadics more))
        else checkVariadics all (variadics.map fun variadic => (variadic.1, variadic.2.shift front.length))).ShiftsAt
        runCall front id (eat .comma >>= fun again => if again = true then call (.parameterList variadics more)
          else checkVariadics all variadics) state := by
    apply (shifts_eat front state).bind
    intro again state _
    cases again with
    | true => exact shiftsAt_call hcalls _
    | false => exact shiftsAt_checkVariadics variadics
  apply (shifts_orM shifts_stopped shifts_currentIs front state).bind
  intro ends state _
  cases ends with
  | true => exact shiftsAt_checkVariadics variadics
  | false =>
    apply (shifts_current front state).bind
    intro kind state _
    simp only [id_eq]
    split
    · have hdefault : (eat .equals >>= fun given => if given = true then constValue else pure ()).Shifts runCall :=
        shifts_bind shifts_eat fun _ => shifts_ite (shifts_constValue hcalls) (shifts_pure _)
      apply (shifts_node (shifts_bind shifts_advance fun _ => hdefault) front state).bind
      intro _ state _
      exact hmore variadics (count + 1) (count + 1) state
    · apply (shiftsAt_ofStep .currentSpan rfl).bind
      intro span state _
      apply (shifts_node shifts_advance front state).bind
      intro _ state _
      have happend := hmore (variadics ++ [(count, span)]) (count + 1) (count + 1) state
      rw [Front.nonterminal, List.map_append] at happend
      exact happend
    · apply (shifts_recover hcalls front state).bind
      intro _ state _
      exact hmore variadics count count state

/-! ### Definitions -/

theorem shifts_body {owner : String} : (body owner).Shifts runCall :=
  shifts_bind shifts_currentIn fun _ => shifts_ite (shifts_call hcalls _ rfl) shifts_reportHere

theorem shifts_path (separator : Kind) : (path separator).Shifts runCall :=
  shifts_bind shifts_eat fun _ => shifts_ite
    (shifts_bind shifts_expect fun _ => shifts_ite (shifts_call hcalls _ rfl) (shifts_pure _)) (shifts_pure _)

theorem shifts_functionDeclaration : functionDeclaration.Shifts runCall := by
  have hrest : (parameters >>= fun _ => body "function body").Shifts runCall :=
    shifts_bind (shifts_parameters hcalls) fun _ => shifts_body hcalls
  refine shifts_node (shifts_bind shifts_advance fun _ => shifts_bind shifts_expect fun _ => shifts_ite ?_ hrest)
  exact shifts_bind (shifts_call hcalls _ rfl) fun _ => hrest

theorem shifts_attributes : attributes.Shifts runCall :=
  shifts_node (shifts_bind shifts_openDelimiter fun _ =>
    shifts_bind (shifts_call hcalls _ rfl) fun _ => shifts_closeDelimiter)

theorem shifts_attributesGoOn : attributesGoOn.Shifts runCall :=
  shifts_bind (shifts_orM shifts_eat shifts_currentIs) fun _ =>
    shifts_ite (shifts_call hcalls _ rfl) (shifts_pure _)

theorem shifts_attributeList : attributeList.Shifts runCall := by
  refine shifts_bind (shifts_orM shifts_stopped shifts_currentIs) fun _ => shifts_ite (shifts_pure _) ?_
  refine shifts_bind shifts_currentIs fun _ => shifts_ite ?_ ?_
  · refine shifts_bind (shifts_node ?_) fun _ => shifts_attributesGoOn hcalls
    exact shifts_bind shifts_advance fun _ => shifts_bind shifts_expect fun _ =>
      shifts_ite (shifts_constValue hcalls) (shifts_pure _)
  · refine shifts_bind (shifts_recover hcalls) fun _ => ?_
    exact shifts_bind (shifts_orM shifts_currentIs shifts_currentIs) fun _ =>
      shifts_ite (shifts_attributesGoOn hcalls) (shifts_pure _)

theorem shifts_optionalAttributes : optionalAttributes.Shifts runCall :=
  shifts_bind shifts_currentIs fun _ => shifts_ite (shifts_attributes hcalls) (shifts_pure _)

theorem shifts_memberValue {isNamed : Bool} {what : String} : (memberValue isNamed what).Shifts runCall := by
  have hend : (eat .semicolon >>= fun _ => (pure () : Rule Unit)).Shifts runCall :=
    shifts_bind shifts_eat fun _ => shifts_pure _
  refine shifts_ite (shifts_bind shifts_expect fun _ => shifts_ite ?_ hend) hend
  exact shifts_bind (shifts_call hcalls _ rfl) fun _ => hend

theorem shifts_member : member.Shifts runCall := by
  refine shifts_node (shifts_bind (shifts_optionalAttributes hcalls) fun _ => shifts_bind shifts_current fun kind => ?_)
  split
  · exact shifts_bind shifts_eat fun _ => shifts_bind shifts_expect fun _ => shifts_memberValue hcalls
  · exact shifts_bind shifts_eat fun _ => shifts_bind shifts_expect fun _ => shifts_memberValue hcalls
  · exact shifts_bind shifts_openDelimiter fun _ => shifts_bind (shifts_call hcalls _ rfl) fun _ =>
      shifts_bind shifts_closeDelimiter fun _ => shifts_memberValue hcalls
  · exact shifts_functionDeclaration hcalls
  · exact shifts_bind shifts_advance fun _ =>
      shifts_bind (shifts_parameters hcalls) fun _ => shifts_body hcalls
  · exact shifts_reportHere

theorem shifts_members : members.Shifts runCall := by
  have hrest : (call .members).Shifts runCall := shifts_call hcalls _ rfl
  refine shifts_bind (shifts_orM shifts_stopped shifts_currentIs) fun _ => shifts_ite (shifts_pure _) ?_
  refine shifts_bind shifts_currentIn fun _ => shifts_ite ?_ ?_
  · exact shifts_bind (shifts_member hcalls) fun _ => hrest
  · exact shifts_bind (shifts_recover hcalls) fun _ => hrest

theorem shifts_classDeclaration : classDeclaration.Shifts runCall := by
  have hbody : (do
      optionalAttributes
      if ← currentIs .braceOpen then
        openDelimiter .braceOpen
        call .members
        closeDelimiter .braceClose "class body"
      else
        let _ ← expect .braceOpen "`\x7b` to open class body" : Rule Unit).Shifts runCall := by
    refine shifts_bind (shifts_optionalAttributes hcalls) fun _ => shifts_bind shifts_currentIs fun _ => shifts_ite ?_ ?_
    · exact shifts_bind shifts_openDelimiter fun _ =>
        shifts_bind (shifts_call hcalls _ rfl) fun _ => shifts_closeDelimiter
    · exact shifts_bind shifts_expect fun _ => shifts_pure _
  have hrest : (do
      if ← eat .kwExtends then
        let _ ← expect .id "base class after `extends`"
      optionalAttributes
      if ← currentIs .braceOpen then
        openDelimiter .braceOpen
        call .members
        closeDelimiter .braceClose "class body"
      else
        let _ ← expect .braceOpen "`\x7b` to open class body" : Rule Unit).Shifts runCall :=
    shifts_bind shifts_eat fun _ => shifts_ite (shifts_bind shifts_expect fun _ => hbody) hbody
  refine shifts_node (shifts_bind shifts_advance fun _ => shifts_bind shifts_expect fun _ => shifts_ite ?_ hrest)
  exact shifts_bind (shifts_call hcalls _ rfl) fun _ => hrest

theorem shifts_enumEntries : enumEntries.Shifts runCall := by
  have hrest : (call .enumEntries).Shifts runCall := shifts_call hcalls _ rfl
  refine shifts_bind (shifts_orM shifts_stopped shifts_currentIs) fun _ => shifts_ite (shifts_pure _) ?_
  refine shifts_bind shifts_currentIs fun _ => shifts_ite ?_ ?_
  · refine shifts_bind (shifts_node ?_) fun _ => ?_
    · exact shifts_bind shifts_advance fun _ => shifts_bind shifts_eat fun _ =>
        shifts_ite (shifts_constValue hcalls) (shifts_pure _)
    · exact shifts_bind shifts_eat fun _ => shifts_ite hrest (shifts_pure _)
  · refine shifts_bind (shifts_recover hcalls) fun _ => ?_
    exact shifts_bind (shifts_orM shifts_currentIs shifts_eat) fun _ => shifts_ite hrest (shifts_pure _)

theorem shifts_enumDeclaration : enumDeclaration.Shifts runCall := by
  refine shifts_node (shifts_bind shifts_advance fun _ => shifts_bind shifts_expect fun _ =>
    shifts_bind (shifts_optionalAttributes hcalls) fun _ => shifts_bind shifts_currentIs fun _ => shifts_ite ?_ ?_)
  · exact shifts_bind shifts_openDelimiter fun _ => shifts_bind (shifts_call hcalls _ rfl) fun _ =>
      shifts_bind shifts_closeDelimiter fun _ => shifts_bind shifts_eat fun _ => shifts_pure _
  · exact shifts_bind shifts_expect fun _ => shifts_pure _

theorem shifts_constDeclaration : constDeclaration.Shifts runCall := by
  refine shifts_node (shifts_bind shifts_advance fun _ => shifts_bind shifts_expect fun _ =>
    shifts_ite (shifts_bind shifts_expect fun _ => shifts_ite ?_ (shifts_pure _)) (shifts_pure _))
  exact shifts_bind (shifts_constValue hcalls) fun _ => shifts_expectTerminator

/-! ### Expressions -/

theorem shifts_parenthesized : parenthesized.Shifts runCall :=
  shifts_node (shifts_bind shifts_openDelimiter fun _ =>
    shifts_bind (shifts_call hcalls _ rfl) fun _ => shifts_closeDelimiter)

theorem shifts_lambda : lambda.Shifts runCall :=
  shifts_node (shifts_bind shifts_advance fun _ =>
    shifts_bind (shifts_parameters hcalls) fun _ => shifts_call hcalls _ rfl)

theorem shifts_anonymousFunction : anonymousFunction.Shifts runCall :=
  shifts_node (shifts_bind shifts_advance fun _ =>
    shifts_bind (shifts_parameters hcalls) fun _ => shifts_body hcalls)

theorem shifts_keywordOperand {kind : Kind} :
    (keywordOperand kind).Shifts runCall :=
  shifts_node (shifts_bind shifts_advance fun _ => shifts_call hcalls _ rfl)

theorem shifts_prefixed : prefixed.Shifts runCall :=
  shifts_node (shifts_bind shifts_advance fun _ => shifts_call hcalls _ rfl)

theorem shifts_tableOperand (allowed : Bool) : (tableOperand allowed).Shifts runCall :=
  shifts_ite (shifts_table hcalls)
    (shifts_bind shifts_reportHere fun _ => shifts_node (shifts_table hcalls))

theorem shifts_operand (tableAllowed : Bool) : (operand tableAllowed).Shifts runCall := by
  have whole {rule : Rule Unit} (hrule : rule.Shifts runCall) :
      (rule >>= fun _ => (pure true : Rule Bool)).Shifts runCall := shifts_bind hrule fun _ => shifts_pure _
  refine shifts_bind shifts_current fun kind => ?_
  split
  · exact shifts_bind (shifts_ofStep _ rfl) fun _ => shifts_ite (whole shifts_negativeLiteral) (whole (shifts_prefixed hcalls))
  iterate 5 exact whole (shifts_prefixed hcalls)
  · exact whole (shifts_parenthesized hcalls)
  · exact whole (shifts_array hcalls)
  · exact whole (shifts_tableOperand hcalls _)
  · exact whole (shifts_node shifts_advance)
  · exact whole (shifts_node (shifts_bind shifts_advance fun _ => shifts_bind shifts_expect fun _ => shifts_pure _))
  · exact whole (shifts_lambda hcalls)
  · exact whole (shifts_anonymousFunction hcalls)
  iterate 3 exact whole (shifts_keywordOperand hcalls)
  · refine whole (shifts_node (shifts_bind shifts_advance fun _ => ?_))
    exact shifts_callArguments hcalls
  · exact whole shifts_advanceGarbage
  · exact shifts_literal

theorem shifts_suffix (found : Suffix) : (suffix found).Shifts runCall := by
  cases found with
  | member => exact shifts_bind shifts_advance fun _ => shifts_bind shifts_expect fun _ => shifts_pure _
  | index =>
    exact shifts_bind shifts_openDelimiter fun _ => shifts_bind (shifts_call hcalls _ rfl) fun _ => shifts_closeDelimiter
  | call => exact shifts_callArguments hcalls
  | increment => exact shifts_advance
  | ternary =>
    exact shifts_bind shifts_advance fun _ => shifts_bind (shifts_call hcalls _ rfl) fun _ =>
      shifts_bind shifts_expect fun _ => shifts_ite (shifts_call hcalls _ rfl) (shifts_pure _)
  | assignment | update | binary => exact shifts_bind shifts_advance fun _ => shifts_call hcalls _ rfl

/-- The mark at the start of an expression stands above what has been placed in front of it. -/
theorem shiftsAt_operators (start power : Nat) :
    (operators (start + front.placed.length) power).ShiftsAt runCall front id (operators start power) state := by
  apply (shifts_stopped front state).bind
  intro halt state _
  cases halt with
  | true => exact shifts_pure () front state
  | false =>
    apply (shifts_current front state).bind
    intro kind state _
    apply (shifts_ofStep .afterLineBreak rfl front state).bind
    intro afterLineBreak state _
    dsimp only [id]
    cases Suffix.of? power afterLineBreak kind with
    | none => exact shifts_pure () front state
    | some found =>
      apply (shiftsAt_nodeFrom fun _ => shifts_suffix hcalls found _ _).bind
      intro _ state _
      exact shiftsAt_call hcalls (.operators start power)

theorem shifts_expressionOf (power : Nat) (tableAllowed : Bool) :
    (expressionOf power tableAllowed).Shifts runCall := by
  refine shifts_bind (shifts_ofStep .descend rfl) fun within => shifts_ite ?_ shifts_abandon
  intro front state
  apply (shiftsAt_ofStep .mark rfl).bind
  intro start state _
  apply (shifts_operand hcalls tableAllowed front state).bind
  intro starts state _
  have hend (state : State) : (ofStep .ascend).ShiftsAt runCall front id (ofStep .ascend) state :=
    shifts_ofStep .ascend rfl front state
  cases starts with
  | true => exact (shiftsAt_call hcalls (.operators start power)).bind fun _ state _ => hend state
  | false => exact (shifts_reportHere front state).bind fun _ state _ => hend state

theorem shifts_slot : slot.Shifts runCall := by
  refine shifts_node (shifts_bind shifts_current fun _ => shifts_bind (shifts_ofStep _ rfl) fun _ => shifts_ite ?_ ?_)
  · exact shifts_bind shifts_advance fun _ => shifts_bind shifts_expect fun _ => shifts_call hcalls _ rfl
  refine shifts_ite ?_ (shifts_ite (shifts_functionDeclaration hcalls) ?_)
  · exact shifts_bind shifts_openDelimiter fun _ => shifts_bind (shifts_call hcalls _ rfl) fun _ =>
      shifts_bind shifts_closeDelimiter fun _ => shifts_bind shifts_expect fun _ =>
        shifts_ite (shifts_call hcalls _ rfl) (shifts_pure _)
  · exact shifts_bind (shifts_call hcalls _ rfl) fun _ => shifts_bind shifts_expect fun _ =>
      shifts_ite (shifts_call hcalls _ rfl) (shifts_pure _)

theorem shifts_slots : slots.Shifts runCall := by
  have hrest : (call .slots).Shifts runCall := shifts_call hcalls _ rfl
  refine shifts_bind (shifts_orM shifts_stopped shifts_currentIs) fun _ => shifts_ite (shifts_pure _) ?_
  refine shifts_bind shifts_currentIn fun _ => shifts_ite ?_ ?_
  · exact shifts_bind (shifts_slot hcalls) fun _ => shifts_bind shifts_eat fun _ => hrest
  · refine shifts_bind (shifts_recover hcalls) fun _ => ?_
    exact shifts_bind (shifts_orM shifts_currentIn shifts_eat) fun _ => shifts_ite hrest (shifts_pure _)

end

end Grammar

end Squirrel

import Squirrel.Proofs.Grammar.Orderly
import Squirrel.Proofs.Parse.Evaluation
import Squirrel.Proofs.Parse.Rejected
import Squirrel.Proofs.Token.Fault

/-!
# The grammar about rejected tokens

Wherever a rule has a place for a rejected token, it passes it without a word. Where it has none, it says which token it
asks for instead: `expect`, the recovery of a list, and the ends of statements speak about the token here whatever it is.
All other reports are made where another kind of token is known to be here.
-/

namespace Squirrel

/-- The steps that neither report nor remember an opener. -/
def Step.isSilent {α : Type} : Step α → Bool
  | .pushOpener _ | .report _ | .reportOnce .. => false
  | _ => true

namespace Grammar

open Rule

variable {tokens : List Token}

/-! ### Small rules -/

theorem tactful_ofStep {α : Type} {s : Step α} (hsilent : s.isSilent = true) : (ofStep s).Tactful tokens := by
  intro sight
  cases s with
  | pushOpener | report | reportOnce => cases hsilent
  | _ => exact ⟨trivial, fun _ _ => trivial⟩

@[grind .] theorem tactful_current : current.Tactful tokens := tactful_ofStep rfl

@[grind .] theorem tactful_atEnd : atEnd.Tactful tokens := tactful_ofStep rfl

@[grind .] theorem tactful_stopped : stopped.Tactful tokens := tactful_ofStep rfl

@[grind .] theorem tactful_advance : advance.Tactful tokens := tactful_ofStep rfl

@[grind .] theorem tactful_adjacent : (ofStep .adjacent).Tactful tokens := tactful_ofStep rfl

@[grind .] theorem tactful_next : (ofStep .next).Tactful tokens := tactful_ofStep rfl

@[grind .] theorem tactful_afterLineBreak : (ofStep .afterLineBreak).Tactful tokens := tactful_ofStep rfl

@[grind .] theorem tactful_numberFollows : (ofStep .numberFollows).Tactful tokens := tactful_ofStep rfl

@[grind .] theorem tactful_mark : (ofStep .mark).Tactful tokens := tactful_ofStep rfl

@[grind .] theorem tactful_descend : (ofStep .descend).Tactful tokens := tactful_ofStep rfl

@[grind .] theorem tactful_ascend : (ofStep .ascend).Tactful tokens := tactful_ofStep rfl

@[grind .] theorem tactful_currentIs (kind : Kind) : (currentIs kind).Tactful tokens :=
  tactful_bind tactful_current fun _ => tactful_pure _

@[grind .] theorem tactful_currentIn (set : TokenSet) : (currentIn set).Tactful tokens :=
  tactful_bind tactful_current fun _ => tactful_pure _

@[grind .] theorem tactful_eat (kind : Kind) : (eat kind).Tactful tokens := by grind [eat]

@[grind ←] theorem tactful_nodeFrom {start : Nat} {kind : Kind} {inner : Rule Unit} (hinner : inner.Tactful tokens) :
    (nodeFrom start kind inner).Tactful tokens :=
  fun sight => (hinner sight).mono fun _ _ _ => trivial

@[grind ←] theorem tactful_node {kind : Kind} {inner : Rule Unit} (hinner : inner.Tactful tokens) :
    (node kind inner).Tactful tokens :=
  tactful_bind tactful_mark fun _ => tactful_nodeFrom hinner

@[grind ←] theorem tactful_call {nonterminal : Nonterminal} (hshuns : nonterminal.Shuns tokens) :
    (call nonterminal).Tactful tokens :=
  fun _ => ⟨hshuns, trivial⟩

theorem tactfulAt_node {kind here : Kind} {inner : Rule Unit} (hinner : inner.TactfulAt tokens here) :
    (node kind inner).TactfulAt tokens here :=
  fun sight hhere => ⟨trivial, fun _ _ => (hinner sight hhere).mono fun _ _ _ => trivial⟩

/-- A rule that chooses by the kind of the token here. -/
theorem tactful_byKind {α : Type} {next : Kind → Rule α} (hnext : ∀ kind, (next kind).TactfulAt tokens kind) :
    (current >>= next).Tactful tokens :=
  fun _ => ⟨trivial, fun kind _ => hnext kind _ rfl⟩

theorem tactful_ifCurrentIs {α : Type} {kind : Kind} {yes no : Rule α} (hyes : yes.TactfulAt tokens kind)
    (hno : no.Tactful tokens) :
    (currentIs kind >>= fun answer => if answer = true then yes else no).Tactful tokens := by
  refine tactful_byKind fun found => ?_
  show (if (found == kind) = true then yes else no).TactfulAt tokens found
  split
  · next hfound => exact eq_of_beq hfound ▸ hyes
  · exact hno.tactfulAt found

/-- Where the token here is not of a set that rejected tokens are in, it is not rejected. -/
theorem discerns_currentIn {set : TokenSet} (hset : set.contains .garbage = true) : (currentIn set).Discerns tokens :=
  fun _ => ⟨trivial, fun kind _ hother => ⟨kind, rfl, fun hgarbage => by
    rw [hgarbage, hset] at hother
    cases hother⟩⟩

/-! ### Reports -/

/-- A report at the token here. It asks for another token, or the token here is known not to be rejected. -/
theorem watches_reporting {report : Span → Bool → Diagnostic} {sight : Sight}
    (hspan : ∀ span ended, (report span ended).span = span)
    (hdemand : (∀ span, (report span false).kind.isDemand = true) ∨ sight.IsClear) :
    (currentSpan >>= fun span => atEnd >>= fun ended =>
      ofStep (.reportOnce span.start (report span ended))).Watches tokens sight fun _ after =>
        after.kind? = sight.kind? := by
  refine ⟨trivial, fun span hsuits => ⟨trivial, fun ended hends => ?_⟩⟩
  have hconsiderate (seen : Sight) (hseen : seen.span? = some span) :
      (Step.reportOnce span.start (report span ended)).Considerate tokens seen := by
    refine .inl ⟨by rw [hspan, hseen], by rw [hspan], ?_⟩
    rw [hspan]
    cases ended with
    | true => exact .inr (hends rfl span rfl)
    | false =>
      refine hdemand.imp (fun hdemand => hdemand span) fun hhere => ?_
      obtain ⟨here, hhere, hword⟩ := hhere
      exact hsuits here hhere hword
  cases ended <;> exact ⟨hconsiderate _ rfl, fun _ _ => rfl⟩

@[grind .] theorem tactful_expect (kind : Kind) (what : String) : (expect kind what).Tactful tokens := by
  refine tactful_bind (tactful_eat kind) fun eaten => ?_
  cases eaten with
  | true => exact tactful_pure true
  | false =>
    let report (span : Span) (ended : Bool) : Diagnostic :=
      (Diagnostic.report (if ended = true then .unexpectedEof else .unexpectedToken) span
        (some ("expected " ++ what))).withExpected [kind]
    have hreport : (currentSpan >>= fun span => atEnd >>= fun ended =>
        ofStep (.reportOnce span.start (report span ended))).Tactful tokens := fun sight =>
      (watches_reporting (fun _ _ => rfl) (.inl fun _ => rfl)).mono fun _ _ _ => trivial
    have hanswer : ((currentSpan >>= fun span => atEnd >>= fun ended =>
        ofStep (.reportOnce span.start (report span ended))) >>= fun _ => (pure false : Rule Bool)).Tactful tokens :=
      tactful_bind hreport fun _ => tactful_pure false
    exact hanswer

theorem watches_reportHere {kind : DiagnosticKind} {detail : Option String} {sight : Sight}
    (hdemand : kind.isDemand = true ∨ sight.IsClear) :
    (reportHere kind detail).Watches tokens sight fun _ after => after.kind? = sight.kind? :=
  watches_reporting (fun span ended => span_reportAt span ended kind detail) (hdemand.imp_left fun hdemand _ => hdemand)

@[grind ←] theorem tactful_reportHere {kind : DiagnosticKind} {detail : Option String} (hdemand : kind.isDemand = true) :
    (reportHere kind detail).Tactful tokens :=
  fun _ => (watches_reportHere (.inl hdemand)).mono fun _ _ _ => trivial

/-- A report about the token here, which is known not to be rejected. -/
theorem tactfulAt_reportHere {kind : DiagnosticKind} {detail : Option String} {here : Kind} (hword : here ≠ .garbage) :
    (reportHere kind detail).TactfulAt tokens here :=
  fun _ hhere => (watches_reportHere (.inr ⟨here, hhere, hword⟩)).mono fun _ _ _ => trivial

/-! ### Skipping -/

@[grind .] theorem tactful_abandon : abandon.Tactful tokens := by grind [abandon]

@[grind .] theorem tactful_advanceAsError : advanceAsError.Tactful tokens := by grind [advanceAsError]

@[grind .] theorem tactful_advanceGarbage : advanceGarbage.Tactful tokens := by grind [advanceGarbage]

theorem tactful_skipUntil (recovery : TokenSet) : (skipUntil recovery).Tactful tokens := by grind [skipUntil]

theorem tactful_skipToStatement : skipToStatement.Tactful tokens := by grind [skipToStatement]

@[grind ←] theorem tactful_recover {kind : DiagnosticKind} {detail : String} {recovery : TokenSet}
    (hdemand : kind.isDemand = true) : (recover kind detail recovery).Tactful tokens := by
  grind [recover]

/-- Recovery from a token that is known not to be rejected. -/
theorem tactfulAt_recover {kind : DiagnosticKind} {detail : String} {recovery : TokenSet} {here : Kind}
    (hword : here ≠ .garbage) : (recover kind detail recovery).TactfulAt tokens here := by
  have hreport : (reportHere kind (some detail)).TactfulAt tokens here := tactfulAt_reportHere hword
  have hskip : (reportHere kind (some detail) >>= fun _ => call (.skipUntil recovery)).TactfulAt tokens here :=
    hreport.bind fun _ => tactful_call nofun
  have hnode : (node .error (reportHere kind (some detail) >>= fun _ => call (.skipUntil recovery))).TactfulAt tokens here :=
    tactfulAt_node hskip
  intro sight hhere
  have hlooks : (currentIn recovery <||> stopped).Watches tokens sight fun _ after => after.kind? = some here := by
    refine ⟨trivial, fun found hfound => ?_⟩
    obtain rfl := hfound here hhere
    show ((match toBool (recovery.contains found) with
      | true => pure (recovery.contains found)
      | false => stopped) : Rule Bool).Watches _ _ _
    split
    · rfl
    · exact ⟨trivial, fun _ _ => rfl⟩
  refine (watches_bind ..).mpr (hlooks.mono fun stops after hafter => ?_)
  cases stops with
  | true => exact hreport after hafter
  | false => exact hnode after hafter

theorem tactfulAt_recoverStatement {here : Kind} (hword : here ≠ .garbage) : recoverStatement.TactfulAt tokens here := by
  have hskip : (reportHere .expectedStatement none >>= fun _ => call .skipToStatement).TactfulAt tokens here :=
    (tactfulAt_reportHere hword).bind fun _ => tactful_call nofun
  refine fun sight hhere => ⟨trivial, fun halted _ => ?_⟩
  cases halted with
  | true => trivial
  | false => exact tactfulAt_node hskip sight hhere

/-! ### Delimiters -/

theorem tactfulAt_openDelimiter {kind : Kind} (hword : kind ≠ .garbage) : (openDelimiter kind).TactfulAt tokens kind :=
  fun _ hhere => ⟨trivial, fun _ hsuits => ⟨hsuits kind hhere hword, fun _ _ => ⟨trivial, fun _ _ => trivial⟩⟩⟩

@[grind .] theorem tactful_closeDelimiter (close : Kind) (construct : String) :
    (closeDelimiter close construct).Tactful tokens := by
  refine fun sight => ⟨trivial, fun opener? hopeners => ?_⟩
  have hexpect : (expect close close.displayName >>= fun _ => (pure () : Rule Unit)).Tactful tokens := by grind
  refine (watches_bind (eat close) ..).mpr ((tactful_eat close _).mono fun eaten after _ => ?_)
  cases eaten with
  | true => trivial
  | false =>
    refine ⟨trivial, fun ended _ => ?_⟩
    cases ended with
    | false => cases opener? <;> exact hexpect _
    | true =>
      cases opener? with
      | none => exact hexpect _
      | some opener =>
        -- at the end no rejected token is left, so that what is reported about the opener hides none
        exact ⟨trivial, fun span _ => ⟨.inr ⟨trivial, hopeners opener rfl⟩, fun _ _ => trivial⟩⟩

/-- An opener is known to be here, and what goes on behind it is tactful. -/
theorem tactfulAt_opened {α : Type} {opener : Kind} {next : Unit → Rule α} (hword : opener ≠ .garbage)
    (hnext : (next ()).Tactful tokens) : (openDelimiter opener >>= next).TactfulAt tokens opener :=
  (tactfulAt_openDelimiter hword).bind fun _ => hnext

/-! ### Ends of statements -/

@[grind .] theorem tactful_expectTerminator (what : String) : (expectTerminator what).Tactful tokens := by
  have hends : (eat .semicolon <||> atEnd <||> currentIs .braceClose <||> ofStep .afterLineBreak).Tactful tokens := by grind
  grind [expectTerminator]

/-- The report about a missing semicolon is about the token before it, which is known not to be rejected. -/
theorem tactfulAt_advance_expectSemicolon {here : Kind} (hword : here ≠ .garbage) (what : String) :
    (advance >>= fun _ => expectSemicolon what).TactfulAt tokens here := by
  refine fun sight hhere => ⟨trivial, fun _ _ => ⟨trivial, fun kind _ => ?_⟩⟩
  show (((if (kind == .semicolon) = true then (do advance; return true) else return false) : Rule Bool) >>= _).Watches _ _ _
  cases kind == .semicolon with
  | true => exact ⟨trivial, fun _ _ => trivial⟩
  | false =>
    refine ⟨trivial, fun token? hspares => ?_⟩
    cases token? with
    | none => trivial
    | some token => exact ⟨.inr ⟨by simp [Step.see, hhere], hspares here hhere hword token rfl⟩, fun _ _ => trivial⟩

/-! ### Collections -/

@[grind .] theorem tactful_startsExpression : startsExpression.Tactful tokens := tactful_currentIn _

@[grind .] theorem tactful_startsExpressionOrTable : startsExpressionOrTable.Tactful tokens := by
  grind [startsExpressionOrTable]

@[grind .] theorem tactful_expression : expression.Tactful tokens := tactful_call nofun

@[grind .] theorem tactful_expressionOrTable : expressionOrTable.Tactful tokens := tactful_call nofun

theorem discerns_startsExpressionOrTable : startsExpressionOrTable.Discerns tokens := by
  have hstarts : startsExpression.Discerns tokens := discerns_currentIn rfl
  refine fun sight => (watches_bind ..).mpr ((hstarts sight).mono fun starts after hafter => ?_)
  cases starts with
  | true => exact nofun
  | false =>
    obtain ⟨here, hhere, hword⟩ := hafter rfl
    exact ⟨trivial, fun found hfound _ => ⟨found, rfl, hfound here hhere ▸ hword⟩⟩

@[grind .] theorem tactful_literal (kind : Kind) : (literal kind).Tactful tokens := by grind [literal]

@[grind .] theorem tactful_negativeLiteral : negativeLiteral.Tactful tokens := by grind [negativeLiteral]

theorem tactfulAt_array : array.TactfulAt tokens .bracketOpen :=
  tactfulAt_node (tactfulAt_opened nofun (by grind))

theorem tactful_elements : elements.Tactful tokens := by
  have hends : (stopped <||> currentIs .bracketClose).Tactful tokens := by grind
  refine tactful_bind hends fun ends => ?_
  cases ends with
  | true => exact tactful_pure ()
  | false => exact discerns_startsExpressionOrTable.ifThen (by grind) fun kind hword => (tactfulAt_recover hword).bind (by grind)

theorem tactfulAt_table : table.TactfulAt tokens .braceOpen :=
  tactfulAt_node (tactfulAt_opened nofun (by grind))

/-- A literal is missing where the token here is not rejected. -/
theorem watches_literal {kind : Kind} {sight : Sight} (hhere : sight.kind? = some kind) (hword : kind ≠ .garbage) :
    (literal kind).Watches tokens sight fun found after => found = false → after.IsClear := by
  rw [literal]
  split
  · exact fun _ => ⟨kind, hhere, hword⟩
  · exact (watches_bind ..).mpr ((tactful_node tactful_advance sight).mono fun _ _ _ htrue => absurd htrue (by simp))

@[grind .] theorem tactful_constValue : constValue.Tactful tokens := by
  refine tactful_byKind fun kind => ?_
  split
  · refine fun sight hhere => ⟨trivial, fun follows _ => ?_⟩
    cases follows with
    | true => exact tactful_negativeLiteral _
    | false => exact tactfulAt_reportHere (nofun : Kind.minus ≠ .garbage) _ hhere
  · exact tactfulAt_array
  · exact tactfulAt_table
  · exact Tactful.tactfulAt (by grind) _
  · exact Tactful.tactfulAt (by grind) _
  · exact Tactful.tactfulAt (by grind) _
  · exact Tactful.tactfulAt (by grind) _
  · next hword =>
    exact fun sight hhere => (watches_literal hhere hword).ifThen (tactful_pure ()) fun _ => tactfulAt_reportHere

@[grind .] theorem tactful_callArguments : callArguments.Tactful tokens :=
  tactful_node (tactful_ifCurrentIs (tactfulAt_opened nofun (by grind)) (by grind))

theorem tactful_arguments : arguments.Tactful tokens := by
  have hends : (stopped <||> currentIs .parenClose).Tactful tokens := by grind
  have hgoesOn : (eat .comma >>= fun again => if again = true then call .arguments else pure ()).Tactful tokens := by grind
  refine tactful_bind hends fun ends => ?_
  cases ends with
  | true => exact tactful_pure ()
  | false =>
    refine discerns_startsExpressionOrTable.ifThen (by grind) fun kind hword => ?_
    exact (tactfulAt_recover hword).bind fun _ => hgoesOn

@[grind .] theorem tactful_parameters : parameters.Tactful tokens := by
  have hlist : (call (.parameterList [] 0)).Tactful tokens := tactful_call (by grind)
  exact tactful_node (tactful_ifCurrentIs (tactfulAt_opened nofun (by grind)) (by grind))

theorem tactful_checkVariadics {variadics : List (Nat × Span)}
    (hspares : ∀ variadic ∈ variadics, variadic.2.Spares tokens) (count : Nat) :
    (checkVariadics count variadics).Tactful tokens := by
  induction variadics with
  | nil => exact tactful_pure ()
  | cons variadic rest ih =>
    obtain ⟨hvariadic, hrest⟩ := List.forall_mem_cons.mp hspares
    have hreport : (ofStep (.report (.report .variadicNotLast variadic.2 none))).Tactful tokens :=
      fun sight => ⟨hvariadic, fun _ _ => trivial⟩
    have hgoes := ih hrest
    grind [checkVariadics]

/-- A variadic parameter that is remembered is no rejected token. -/
theorem tactful_parameterList {variadics : List (Nat × Span)}
    (hspares : ∀ variadic ∈ variadics, variadic.2.Spares tokens) (count : Nat) :
    (parameterList variadics count).Tactful tokens := by
  have hgoesOn {variadics : List (Nat × Span)} (hspares : ∀ variadic ∈ variadics, variadic.2.Spares tokens)
      (next last : Nat) : (eat .comma >>= fun again => if again = true then call (.parameterList variadics next)
        else checkVariadics last variadics).Tactful tokens := by
    have hcheck : (checkVariadics last variadics).Tactful tokens := tactful_checkVariadics hspares last
    have hagain : (call (.parameterList variadics next)).Tactful tokens := tactful_call (by grind)
    grind
  have hends : (stopped <||> currentIs .parenClose).Tactful tokens := by grind
  refine tactful_bind hends fun ends => ?_
  cases ends with
  | true => exact tactful_checkVariadics hspares count
  | false =>
    refine tactful_byKind fun kind => ?_
    split
    · refine Tactful.tactfulAt (tactful_bind ?_ fun _ => hgoesOn hspares _ _) _
      grind
    · refine fun sight hhere => ⟨trivial, fun span hspan => ?_⟩
      have hvariadic : span.Spares tokens := hspan .ellipsis hhere nofun
      have hmore : ∀ variadic ∈ variadics ++ [(count, span)], variadic.2.Spares tokens :=
        List.forall_mem_append.mpr ⟨hspares, List.forall_mem_singleton.mpr hvariadic⟩
      exact tactful_bind (tactful_node tactful_advance) (fun _ => hgoesOn hmore _ _) _
    · refine Tactful.tactfulAt (tactful_bind ?_ fun _ => hgoesOn hspares _ _) _
      grind

/-! ### Definitions -/

@[grind .] theorem tactful_body (owner : String) : (body owner).Tactful tokens :=
  (discerns_currentIn rfl).ifThen (tactful_call nofun) fun _ hword => tactfulAt_reportHere hword

theorem tactful_path (separator : Kind) : (path separator).Tactful tokens := by grind [path]

@[grind .] theorem tactful_functionDeclaration : functionDeclaration.Tactful tokens := by grind [functionDeclaration]

theorem tactfulAt_attributes : attributes.TactfulAt tokens .attributeOpen :=
  tactfulAt_node (tactfulAt_opened nofun (by grind))

@[grind .] theorem tactful_attributesGoOn : attributesGoOn.Tactful tokens := by grind [attributesGoOn]

theorem tactful_attributeList : attributeList.Tactful tokens := by
  have hentry : (node .attributeEntry do
      advance
      if ← expect .equals "`=` after attribute name" then constValue).Tactful tokens := tactful_node (by grind)
  grind [attributeList]

@[grind .] theorem tactful_optionalAttributes : optionalAttributes.Tactful tokens :=
  tactful_ifCurrentIs tactfulAt_attributes (tactful_pure ())

@[grind .] theorem tactful_memberValue (isNamed : Bool) (what : String) : (memberValue isNamed what).Tactful tokens := by
  grind [memberValue]

@[grind .] theorem tactful_member : member.Tactful tokens := by
  refine tactful_node (tactful_bind tactful_optionalAttributes fun _ => tactful_byKind fun kind => ?_)
  split
  case h_3 => exact tactfulAt_opened nofun (by grind)
  all_goals exact Tactful.tactfulAt (by grind) _

theorem tactful_members : members.Tactful tokens := by grind [members]

@[grind .] theorem tactful_classDeclaration : classDeclaration.Tactful tokens := by
  have hbody : (optionalAttributes >>= fun _ => currentIs .braceOpen >>= fun opens => if opens = true then
      openDelimiter .braceOpen >>= fun _ => call .members >>= fun _ => closeDelimiter .braceClose "class body"
    else expect .braceOpen "`\x7b` to open class body" >>= fun _ => pure ()).Tactful tokens :=
    tactful_bind tactful_optionalAttributes fun _ => tactful_ifCurrentIs (tactfulAt_opened nofun (by grind)) (by grind)
  refine tactful_node (tactful_bind tactful_advance fun _ => tactful_bind (tactful_expect _ _) fun named => ?_)
  grind

theorem tactful_enumEntries : enumEntries.Tactful tokens := by
  have hentry : (node .enumEntry do
      advance
      if ← eat .equals then constValue).Tactful tokens := tactful_node (by grind)
  grind [enumEntries]

@[grind .] theorem tactful_enumDeclaration : enumDeclaration.Tactful tokens := by
  refine tactful_node (tactful_bind tactful_advance fun _ => tactful_bind (tactful_expect _ _) fun named => ?_)
  refine tactful_bind tactful_optionalAttributes fun _ => ?_
  exact tactful_ifCurrentIs (tactfulAt_opened nofun (by grind)) (by grind)

@[grind .] theorem tactful_constDeclaration : constDeclaration.Tactful tokens := by grind [constDeclaration]

/-! ### Expressions -/

theorem tactfulAt_parenthesized : parenthesized.TactfulAt tokens .parenOpen :=
  tactfulAt_node (tactfulAt_opened nofun (by grind))

@[grind .] theorem tactful_lambda : lambda.Tactful tokens := by grind [lambda]

@[grind .] theorem tactful_anonymousFunction : anonymousFunction.Tactful tokens := by grind [anonymousFunction]

@[grind .] theorem tactful_keywordOperand (kind : Kind) : (keywordOperand kind).Tactful tokens := by grind [keywordOperand]

@[grind .] theorem tactful_prefixed : prefixed.Tactful tokens := by grind [prefixed]

theorem tactfulAt_tableOperand (allowed : Bool) : (tableOperand allowed).TactfulAt tokens .braceOpen := by
  cases allowed with
  | true => exact tactfulAt_table
  | false =>
    intro sight hhere
    refine (watches_bind ..).mpr ((watches_reportHere (.inr ⟨.braceOpen, hhere, nofun⟩)).mono fun _ after hafter => ?_)
    exact tactfulAt_node tactfulAt_table after (hafter.trans hhere)

/-- Where no operand starts, the token here is not rejected. -/
theorem discerns_operand (tableAllowed : Bool) : (operand tableAllowed).Discerns tokens := by
  have hwhole {rule : Rule Unit} {kind : Kind} (hrule : rule.TactfulAt tokens kind) (sight : Sight)
      (hhere : sight.kind? = some kind) : (rule >>= fun _ => (pure true : Rule Bool)).Watches tokens sight
        fun found after => found = false → after.IsClear :=
    (watches_bind ..).mpr ((hrule sight hhere).mono fun _ _ _ => nofun)
  refine fun sight => ⟨trivial, fun kind _ => ?_⟩
  dsimp only [Rule.bind]
  split
  case h_1 =>
    refine ⟨trivial, fun follows _ => ?_⟩
    cases follows with
    | true => exact hwhole (tactful_negativeLiteral.tactfulAt .minus) _ rfl
    | false => exact hwhole (tactful_prefixed.tactfulAt .minus) _ rfl
  case h_7 => exact hwhole tactfulAt_parenthesized _ rfl
  case h_8 => exact hwhole tactfulAt_array _ rfl
  case h_9 => exact hwhole (tactfulAt_tableOperand tableAllowed) _ rfl
  case h_19 => exact watches_literal rfl (by assumption)
  all_goals exact hwhole (Tactful.tactfulAt (by grind) _) _ rfl

theorem tactful_expressionOf (power : Nat) (tableAllowed : Bool) : (expressionOf power tableAllowed).Tactful tokens := by
  refine tactful_bind tactful_descend fun descended => ?_
  cases descended with
  | false => exact tactful_abandon
  | true =>
    refine tactful_bind tactful_mark fun start => (discerns_operand tableAllowed).ifThen (by grind) fun here hword => ?_
    exact (tactfulAt_reportHere hword).bind fun _ => tactful_ascend

/-- An index starts at its bracket. -/
theorem tactfulAt_suffix {kind : Kind} {power : Nat} {afterLineBreak : Bool} {found : Suffix}
    (hfound : Suffix.of? power afterLineBreak kind = some found) : (suffix found).TactfulAt tokens kind := by
  cases found with
  | index =>
    obtain rfl : kind = .bracketOpen := Suffix.starts_of_of? hfound
    exact tactfulAt_opened nofun (by grind)
  | _ => exact Tactful.tactfulAt (by grind [suffix]) _

theorem tactful_operators (start power : Nat) : (operators start power).Tactful tokens := by
  refine tactful_bind tactful_stopped fun halted => ?_
  cases halted with
  | true => exact tactful_pure ()
  | false =>
    refine tactful_byKind fun kind sight hhere => ⟨trivial, fun afterLineBreak _ => ?_⟩
    dsimp only [Rule.bind]
    split
    · trivial
    · next found hfound =>
      exact (tactfulAt_suffix hfound _ hhere).mono fun _ after _ => ⟨nofun, trivial⟩

@[grind .] theorem tactful_slot : slot.Tactful tokens := by
  refine tactful_node (tactful_byKind fun kind sight hhere => ⟨trivial, fun next _ => ?_⟩)
  show (if (kind == .id && next == .equals) = true then _ else _ : Rule Unit).Watches _ _ _
  split
  · exact Tactful.tactfulAt (by grind) kind sight hhere
  · split
    · next hkind =>
      have hkey : (openDelimiter .bracketOpen >>= fun _ => expression >>= fun _ =>
          closeDelimiter .bracketClose "computed key" >>= fun _ => expect .equals "`=` after computed key" >>= fun found =>
            if found = true then expressionOrTable else pure ()).TactfulAt tokens .bracketOpen :=
        tactfulAt_opened nofun (by grind)
      exact hkey sight (hhere.trans (congrArg some (eq_of_beq hkind)))
    · split
      · exact tactful_functionDeclaration _
      · exact Tactful.tactfulAt (by grind) kind sight hhere

theorem tactful_slots : slots.Tactful tokens := by grind [slots]

/-! ### Statements -/

theorem tactfulAt_block : block.TactfulAt tokens .braceOpen :=
  tactfulAt_node (tactfulAt_opened nofun (by grind))

theorem tactful_blockStatements : blockStatements.Tactful tokens := by grind [blockStatements]

@[grind .] theorem tactful_parenHeader (construct : String) : (parenHeader construct).Tactful tokens :=
  tactful_ifCurrentIs (tactfulAt_opened nofun (by grind)) (by grind)

@[grind .] theorem tactful_ifStatement : ifStatement.Tactful tokens := by
  have hrest : (body "`if` branch" >>= fun _ => currentIs .kwElse >>= fun follows => if follows = true then
      node .elseStatement do
        advance
        body "`else` branch"
    else pure ()).Tactful tokens := by grind
  refine tactful_node (tactful_bind tactful_advance fun _ => tactful_ifCurrentIs ?_ ?_)
  · exact tactfulAt_parenthesized.bind fun _ => hrest
  · exact tactful_bind (tactful_expect _ _) fun _ => hrest

@[grind .] theorem tactful_whileStatement : whileStatement.Tactful tokens := by grind [whileStatement, startsStatement]

@[grind .] theorem tactful_doWhileStatement : doWhileStatement.Tactful tokens := by grind [doWhileStatement]

@[grind .] theorem tactful_openHeader (statement : String) : (openHeader statement).Tactful tokens :=
  tactful_ifCurrentIs (tactfulAt_opened nofun (by grind)) (by grind)

@[grind .] theorem tactful_closeHeader (opened : Bool) (construct : String) :
    (closeHeader opened construct).Tactful tokens := by
  grind [closeHeader]

@[grind .] theorem tactful_optionalExpression : optionalExpression.Tactful tokens := by grind [optionalExpression]

theorem tactful_localBindings : localBindings.Tactful tokens := by
  have hbinding : (node .localBinding do
      advance
      if ← currentIs .equals <||> currentIs .newSlot then
        advance
        expressionOrTable).Tactful tokens := tactful_node (by grind)
  grind [localBindings]

@[grind .] theorem tactful_localDeclaration (isStatement : Bool) : (localDeclaration isStatement).Tactful tokens := by
  cases isStatement <;> grind [localDeclaration]

@[grind .] theorem tactful_forStatement : forStatement.Tactful tokens := by
  have hclauses (opened : Bool) : (expect .semicolon "`;` after `for` initializer" >>= fun _ => optionalExpression >>=
      fun _ => expect .semicolon "`;` after `for` condition" >>= fun _ => optionalExpression >>= fun _ =>
        closeHeader opened "`for` header" >>= fun _ => body "`for` body").Tactful tokens := by grind
  refine tactful_node (tactful_bind tactful_advance fun _ => tactful_bind (tactful_openHeader _) fun opened => ?_)
  grind

@[grind .] theorem tactful_foreachStatement : foreachStatement.Tactful tokens := by
  have hrange (opened : Bool) : (expect .kwIn "`in`" >>= fun found => if found = true then
      expression >>= fun _ => closeHeader opened "`foreach` header" >>= fun _ => body "`foreach` body"
    else closeHeader opened "`foreach` header" >>= fun _ => body "`foreach` body").Tactful tokens := by grind
  refine tactful_node (tactful_bind tactful_advance fun _ => tactful_bind (tactful_openHeader _) fun opened => ?_)
  grind

theorem tactful_caseStatements : caseStatements.Tactful tokens := by grind [caseStatements]

@[grind .] theorem tactful_caseClause : caseClause.Tactful tokens := by grind [caseClause]

@[grind .] theorem tactful_defaultClause : defaultClause.Tactful tokens := by
  refine tactful_node (tactful_bind tactful_advance fun _ => ?_)
  grind

/-- A clause is reported where its keyword is. -/
theorem tactful_switchClauses (seenDefault : Bool) : (switchClauses seenDefault).Tactful tokens := by
  have hcase : (caseClause >>= fun _ => call (.switchClauses seenDefault)).Tactful tokens := by grind
  have hdefault : (defaultClause >>= fun _ => call (.switchClauses true)).Tactful tokens := by grind
  refine tactful_bind tactful_stopped fun halted => ?_
  cases halted with
  | true => exact tactful_pure ()
  | false =>
    refine tactful_byKind fun kind => ?_
    split
    · exact (tactful_pure ()).tactfulAt _
    · cases seenDefault with
      | true => exact (tactfulAt_reportHere (nofun : Kind.kwCase ≠ .garbage)).bind fun _ => hcase
      | false => exact hcase.tactfulAt _
    · cases seenDefault with
      | true => exact (tactfulAt_reportHere (nofun : Kind.kwDefault ≠ .garbage)).bind fun _ => hdefault
      | false => exact hdefault.tactfulAt _
    · exact Tactful.tactfulAt (by grind) _

@[grind .] theorem tactful_switchStatement : switchStatement.Tactful tokens := by
  refine tactful_node (tactful_bind tactful_advance fun _ => tactful_bind (tactful_parenHeader _) fun _ => ?_)
  exact tactful_ifCurrentIs (tactfulAt_opened nofun (by grind)) (by grind)

theorem tactfulAt_jumpStatement {kind here : Kind} {keyword : String} (hword : here ≠ .garbage) :
    (jumpStatement kind keyword).TactfulAt tokens here :=
  tactfulAt_node (tactfulAt_advance_expectSemicolon hword keyword)

@[grind .] theorem tactful_returnStatement : returnStatement.Tactful tokens := by grind [returnStatement]

@[grind .] theorem tactful_yieldStatement : yieldStatement.Tactful tokens := by
  have hvalue : (startsExpression <&&> (not <$> ofStep .afterLineBreak)).Tactful tokens := by grind
  grind [yieldStatement]

@[grind .] theorem tactful_throwStatement : throwStatement.Tactful tokens := by grind [throwStatement]

@[grind .] theorem tactful_varStatement : varStatement.Tactful tokens := by grind [varStatement]

@[grind .] theorem tactful_tryStatement : tryStatement.Tactful tokens := by
  have hcatch : (node .catchStatement do
      advance
      if ← currentIs .parenOpen then
        openDelimiter .parenOpen
        let _ ← expect .id "exception variable"
        closeDelimiter .parenClose "`catch` binding"
      else
        let _ ← expect .parenOpen "`(` after `catch`"
      body "`catch` body").Tactful tokens := by
    refine tactful_node (tactful_bind tactful_advance fun _ => tactful_ifCurrentIs ?_ ?_)
    · exact tactfulAt_opened nofun (by grind)
    · exact tactful_bind (tactful_expect _ _) fun _ => tactful_body _
  refine tactful_node (tactful_bind tactful_advance fun _ => tactful_bind (tactful_body _) fun _ => ?_)
  grind

@[grind .] theorem tactful_expressionStatement : expressionStatement.Tactful tokens := by grind [expressionStatement]

@[grind .] theorem tactful_knownStatement : knownStatement.Tactful tokens := by
  refine tactful_byKind fun kind => ?_
  split
  case h_1 => exact tactfulAt_block
  case h_9 | h_10 => exact tactfulAt_jumpStatement nofun
  all_goals exact Tactful.tactfulAt (by grind) _

theorem tactful_statement : statement.Tactful tokens := by
  have hother : (startsStatement >>= fun starts => if starts = true then knownStatement >>= fun _ => ofStep .ascend
      else recoverStatement >>= fun _ => ofStep .ascend).Tactful tokens :=
    (discerns_currentIn rfl).ifThen (by grind) fun here hword => (tactfulAt_recoverStatement hword).bind (by grind)
  grind [statement]

theorem tactful_script : script.Tactful tokens := by
  grind [script]

/-- Every rule of the grammar is tactful. -/
theorem tactful_ruleOf {nonterminal : Nonterminal} (hshuns : nonterminal.Shuns tokens) :
    (ruleOf nonterminal).Tactful tokens := by
  cases nonterminal with
  | script => exact tactful_script
  | statement => exact tactful_statement
  | blockStatements => exact tactful_blockStatements
  | caseStatements => exact tactful_caseStatements
  | switchClauses seenDefault => exact tactful_switchClauses seenDefault
  | localBindings => exact tactful_localBindings
  | expression power tableAllowed => exact tactful_expressionOf power tableAllowed
  | operators start power => exact tactful_operators start power
  | arguments => exact tactful_arguments
  | elements => exact tactful_elements
  | slots => exact tactful_slots
  | parameterList variadics count => exact tactful_parameterList (hshuns variadics count rfl) count
  | path separator => exact tactful_path separator
  | members => exact tactful_members
  | enumEntries => exact tactful_enumEntries
  | attributeList => exact tactful_attributeList
  | skipUntil recovery => exact tactful_skipUntil recovery
  | skipToStatement => exact tactful_skipToStatement

end Grammar

/-! ### Whole parses -/

/-- What starts where a rejected token does and is not about the token itself is at most one report, and it asks for
another token in its place. -/
theorem Script.demand_of_rejected {source : String} {limits : Limits} {script : Script}
    (hparse : Script.parse source limits = .ok script) {token : Token}
    (hmem : token ∈ (Lexed.ofSource source).tokens) (hrejected : token.kind = .garbage) :
    (script.diagnostics.filter fun diagnostic =>
      diagnostic.kind.stage = .parsing ∧ diagnostic.span.start = token.start).length ≤ 1 ∧
    ∀ diagnostic ∈ script.diagnostics, diagnostic.kind.stage = .parsing → diagnostic.span.start = token.start →
      diagnostic.kind.isDemand = true := by
  obtain ⟨parsed, hparsed, rfl⟩ := Script.parse_ok hparse
  obtain ⟨after, hrun, -, rfl⟩ := parseTokens_ok hparsed
  have htactful := Nonterminal.tactful_of_run (fun _ => Grammar.tactful_ruleOf) _ .script _ after nofun
    (State.tactful_initial (Lexed.tile_ofSource source).1) hrun
  obtain ⟨honce, hdemand⟩ := htactful.once token hmem hrejected
  have hlexing {diagnostic : Diagnostic} (hmem : diagnostic ∈ (Lexed.ofSource source).diagnostics) :
      diagnostic.kind.stage = .lexing := by
    obtain ⟨piece, hpiece, hdiagnostic⟩ := Lexed.mem_diagnostics.mp hmem
    exact (Lexed.inside_of_placed hpiece hdiagnostic).2.2.2
  have hperm : (Diagnostic.sorted ((Lexed.ofSource source).diagnostics ++ after.reports.reverse)).Perm
      ((Lexed.ofSource source).diagnostics ++ after.reports) :=
    (List.mergeSort_perm ..).trans (.append_left _ (List.reverse_perm _))
  constructor
  · refine Nat.le_trans (Nat.le_of_eq (hperm.filter _).length_eq) (Nat.le_trans ?_ honce)
    have hnone : (Lexed.ofSource source).diagnostics.filter (fun diagnostic =>
        diagnostic.kind.stage = .parsing ∧ diagnostic.span.start = token.start) = [] :=
      List.filter_eq_nil_iff.mpr fun diagnostic hmem => by simp [hlexing hmem]
    rw [List.filter_append, hnone, List.nil_append, Token.told]
    refine (List.monotone_filter_right _ fun diagnostic hboth => ?_).length_le
    simpa using (of_decide_eq_true hboth).2
  · intro diagnostic hmem hstage hstart
    obtain hmem | hmem := List.mem_append.mp (hperm.mem_iff.mp hmem)
    · rw [hlexing hmem] at hstage
      cases hstage
    · exact hdemand diagnostic (List.mem_filter.mpr ⟨hmem, beq_iff_eq.mpr hstart⟩)

/-- A name is asked for where a rejected character stands. -/
theorem Script.demand_of_local : ∃ script, Script.parse "local $" .unbounded = .ok script ∧
    ∃ token ∈ (Lexed.ofSource "local $").tokens, token.kind = .garbage ∧
      (∃ diagnostic ∈ script.diagnostics, diagnostic.kind = .expectedIdentifier ∧ diagnostic.span.start = token.start) ∧
      (script.diagnostics.filter fun diagnostic =>
        diagnostic.kind.stage = .parsing ∧ diagnostic.span.start = token.start).length ≤ 1 ∧
      ∀ diagnostic ∈ script.diagnostics, diagnostic.kind.stage = .parsing → diagnostic.span.start = token.start →
        diagnostic.kind.isDemand = true := by
  have hreports : (Script.reports? "local $" .unbounded).any (·.any fun diagnostic =>
      diagnostic.kind == .expectedIdentifier && diagnostic.span.start == 6) = true := by decide +kernel
  obtain ⟨script, hparse, diagnostic, hmem, htest⟩ := Script.exists_of_reports hreports
  have htoken : (⟨.garbage, 6, "$"⟩ : Token) ∈ (Lexed.ofSource "local $").tokens := by
    rw [← Lexed.computed_eq]
    decide +kernel
  simp only [Bool.and_eq_true, beq_iff_eq] at htest
  exact ⟨script, hparse, _, htoken, rfl, ⟨diagnostic, hmem, htest⟩, Script.demand_of_rejected hparse htoken rfl⟩

end Squirrel

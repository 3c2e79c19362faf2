import Squirrel.Proofs.Grammar.Sound.Expression
import Squirrel.Proofs.Parse.Ledger

/-!
# The grammar keeps house

Each rule moves past the closer of every delimiter that it opens, or gives the opener up in the same node, and what it
reports lies in the source or is about its end. Most rules open nothing and go on from what they find. Those that start
with an opener are entered where one is known to be here.
-/

namespace Squirrel

/-- The steps that change neither what has been placed nor what is reported and open. -/
def Step.isQuiet {α : Type} : Step α → Bool
  | .advance | .pushOpener _ | .popOpener | .report _ | .reportOnce .. => false
  | _ => true

/-- The reports that say what is missing. Where the source has ended they say so instead. -/
@[grind =] def DiagnosticKind.isMissing (kind : DiagnosticKind) : Bool := kind.isRootCause || kind == .unexpectedToken

attribute [grind =] DiagnosticKind.isRootCause Nonterminal.isBare Nonterminal.Asks

@[grind =] theorem Kind.isCloser_eq (kind : Kind) : kind.isCloser =
    (kind == parenClose || kind == bracketClose || kind == braceClose || kind == attributeClose) := by
  cases kind <;> rfl

theorem DiagnosticKind.isEnd_of_isMissing {kind : DiagnosticKind} (hmissing : kind.isMissing = true) :
    kind.isEnd = false := by
  revert hmissing
  cases kind <;> decide

namespace Grammar

open Rule

variable {length base : Nat} {guarded : Bool}

/-! ### Small rules -/

theorem regular_ofStep {α : Type} {s : Step α} (hquiet : s.isQuiet = true) :
    (ofStep s).Regular length base guarded := by
  intro ledger hrest _
  have hkept {kind? : Option Kind} {span? : Option Span} {ended fresh : Prop} {marked? : Option Nat} :
      ledger.IsKept guarded { ledger with kind?, span?, ended, fresh, marked? } :=
    ⟨⟨hrest.raised, hrest.left⟩, rfl, fun _ hbare => hbare⟩
  cases s with
  | advance | pushOpener | popOpener | report | reportOnce => cases hquiet
  | atEnd =>
    refine ⟨trivial, fun ended _ => ?_⟩
    cases ended with
    | true => exact hkept
    | false =>
      have hnone : (if ledger.kind?.isSome = true then none else ledger.left?) = none := by
        rw [hrest.left, ite_self]
      exact ⟨⟨hrest.raised, hnone⟩, rfl, fun _ hbare => hbare⟩
  | _ => exact ⟨trivial, fun _ _ => hkept⟩

@[grind .] theorem regular_current : current.Regular length base guarded := regular_ofStep rfl

@[grind .] theorem regular_atEnd : atEnd.Regular length base guarded := regular_ofStep rfl

@[grind .] theorem regular_stopped : stopped.Regular length base guarded := regular_ofStep rfl

@[grind .] theorem regular_adjacent : (ofStep .adjacent).Regular length base guarded := regular_ofStep rfl

@[grind .] theorem regular_next : (ofStep .next).Regular length base guarded := regular_ofStep rfl

@[grind .] theorem regular_afterLineBreak : (ofStep .afterLineBreak).Regular length base guarded := regular_ofStep rfl

@[grind .] theorem regular_numberFollows : (ofStep .numberFollows).Regular length base guarded := regular_ofStep rfl

@[grind .] theorem regular_descend : (ofStep .descend).Regular length base guarded := regular_ofStep rfl

@[grind .] theorem regular_ascend : (ofStep .ascend).Regular length base guarded := regular_ofStep rfl

@[grind .] theorem regular_currentIs (kind : Kind) : (currentIs kind).Regular length base guarded :=
  regular_bind regular_current fun _ => regular_pure _

@[grind .] theorem regular_currentIn (set : TokenSet) : (currentIn set).Regular length base guarded :=
  regular_bind regular_current fun _ => regular_pure _

/-- A rule that chooses by the kind of the token here. -/
theorem regular_byKind {α : Type} {next : Kind → Rule α}
    (hnext : ∀ kind, (next kind).RegularAt length base guarded kind) :
    (current >>= next).Regular length base guarded := by
  intro ledger hrest hguarded
  refine ⟨trivial, fun kind _ => ?_⟩
  have hseen := hnext kind (Step.current.record ledger kind) ⟨hrest.raised, hrest.left⟩ hguarded rfl
  exact hseen.mono fun _ _ hkept => ⟨hkept.rest, hkept.own, hkept.bare⟩

theorem regular_ifCurrentIs {α : Type} {kind : Kind} {yes no : Rule α} (hyes : yes.RegularAt length base guarded kind)
    (hno : no.Regular length base guarded) :
    (currentIs kind >>= fun answer => if answer = true then yes else no).Regular length base guarded := by
  refine regular_byKind fun found => ?_
  show (if (found == kind) = true then yes else no).RegularAt length base guarded found
  split
  · next hfound => exact eq_of_beq hfound ▸ hyes
  · exact hno.regularAt found

/-- A token is placed where it is known to be no closer, or where no opener waits. -/
theorem regularAt_advance {kind : Kind} (hkind : guarded = true → kind.isCloser = false) :
    advance.RegularAt length base guarded kind := by
  intro ledger hrest hguarded hhere
  have hown : ledger.raised?.toList ++ ledger.own = ledger.own := by
    rw [hrest.raised]
    rfl
  refine ⟨⟨.inl hrest.left, ?_⟩, fun _ _ => ⟨⟨rfl, rfl⟩, hown, fun htrue hbare => ⟨hbare, kind, hhere, hkind htrue⟩⟩⟩
  cases guarded with
  | false => exact .inl ⟨hguarded rfl, hrest.raised⟩
  | true => exact .inr ⟨kind, hhere, hkind rfl⟩

@[grind .] theorem regular_advance : advance.Regular length base false := by
  intro ledger hrest hguarded
  have hown : ledger.raised?.toList ++ ledger.own = ledger.own := by
    rw [hrest.raised]
    rfl
  exact ⟨⟨.inl hrest.left, .inl ⟨hguarded rfl, hrest.raised⟩⟩, fun _ _ => ⟨⟨rfl, rfl⟩, hown, nofun⟩⟩

@[grind ←] theorem regular_eat {kind : Kind} (hkind : guarded = true → kind.isCloser = false) :
    (eat kind).Regular length base guarded :=
  regular_ifCurrentIs ((regularAt_advance hkind).bind fun _ => regular_pure true) (regular_pure false)

/-- A node is built around nothing that has been placed before. -/
theorem orderly_node {kind : Kind} {inner : Rule Unit} {ledger : Ledger} (hkind : kind ≠ .ifStatement)
    (hrest : ledger.AtRest)
    (hinner : inner.Orderly length 0 ledger.inside fun _ after => ledger.inside.IsKept false after) :
    (node kind inner).Orderly length base ledger fun _ after => ledger.IsKept guarded after := by
  refine ⟨trivial, fun start _ => ⟨⟨hrest.raised, hrest.left⟩, .inl rfl, fun hif => absurd hif hkind, ?_⟩⟩
  refine hinner.mono fun _ after hkept => ?_
  exact ⟨hkept.rest, hkept.own, ⟨hkept.rest.raised, hkept.rest.left⟩, rfl, fun _ hbare => hbare⟩

theorem regularAt_node {kind here : Kind} {inner : Rule Unit} (hkind : kind ≠ .ifStatement)
    (hinner : inner.RegularAt length 0 false here) : (node kind inner).RegularAt length base guarded here :=
  fun ledger hrest _ hhere =>
    orderly_node hkind hrest (hinner ledger.inside ⟨hrest.raised, hrest.left⟩ (fun _ => rfl) hhere)

@[grind ←] theorem regular_node {kind : Kind} {inner : Rule Unit} (hkind : kind ≠ .ifStatement)
    (hinner : inner.Regular length 0 false) : (node kind inner).Regular length base guarded :=
  fun ledger hrest _ => orderly_node hkind hrest (hinner ledger.inside ⟨hrest.raised, hrest.left⟩ fun _ => rfl)

/-- A nonterminal that asks for nothing. -/
@[grind ←] theorem regular_call {nonterminal : Nonterminal} (hbare : nonterminal.isBare = true)
    (hasks : ∀ ledger, nonterminal.Asks length base ledger) : (call nonterminal).Regular length base guarded :=
  fun ledger hrest _ => ⟨hrest, hasks ledger, ⟨rfl, rfl⟩, rfl, fun _ hledger => ⟨hledger, hbare⟩⟩

@[grind ←] theorem regular_callPath {separator : Kind} (hseparator : separator.isCloser = false) :
    (call (.path separator)).Regular length base guarded := regular_call rfl fun _ => hseparator

/-- Skipping may pass closers. -/
theorem regular_callSkip {nonterminal : Nonterminal}
    (hasks : ∀ ledger : Ledger, ledger.own = [] → nonterminal.Asks length base ledger) :
    (call nonterminal).Regular length base false :=
  fun ledger hrest hguarded => ⟨hrest, hasks ledger (hguarded rfl), ⟨rfl, rfl⟩, rfl, nofun⟩

/-! ### Reports -/

/-- A report at the token here. Without a token it has to be about the end, unless one is known to be here. -/
theorem orderly_reporting {report : Span → Bool → Diagnostic} {ledger : Ledger} (hrest : ledger.AtRest)
    (hspan : ∀ span ended, (report span ended).span = span) (hlocal : ∀ span, (report span false).kind.isEnd = false)
    (hend : (∀ span, (report span true).kind = .unexpectedEof) ∨ ∃ kind, ledger.kind? = some kind ∧ kind ≠ .error) :
    (currentSpan >>= fun span => atEnd >>= fun ended =>
      ofStep (.reportOnce span.start (report span ended))).Orderly length base ledger fun _ after =>
        ledger.IsKept guarded after ∧ after.kind? = ledger.kind? := by
  refine ⟨trivial, fun span _ => ⟨trivial, fun ended hended => ?_⟩⟩
  have hhere := hended.1 span rfl
  cases ended with
  | true =>
    obtain rfl : span = ⟨length, length⟩ := hhere
    obtain heof | ⟨kind, hkind, hword⟩ := hend
    · refine ⟨.inr ⟨trivial, rfl, .inl ⟨heof _, hspan ..⟩⟩, fun _ _ => ⟨⟨⟨hrest.raised, ?_⟩, rfl, fun _ hbare => hbare⟩, rfl⟩⟩
      exact (congrArg _ hrest.left).trans (ite_self _)
    · exact nomatch hended.2 kind hkind hword
  | false =>
    have hnone : (if ledger.kind?.isSome = true then none else ledger.left?) = none := by
      rw [hrest.left, ite_self]
    have hinside : (report span false).IsLocal length := ⟨hlocal span, by rw [hspan]; exact hhere⟩
    refine ⟨.inl ⟨trivial, hinside, by rw [hspan]⟩, fun _ _ => ⟨⟨⟨hrest.raised, ?_⟩, rfl, fun _ hbare => hbare⟩, rfl⟩⟩
    exact (congrArg _ hnone).trans (ite_self _)

@[grind ←] theorem regular_expect {kind : Kind} {what : String} (hkind : guarded = true → kind.isCloser = false) :
    (expect kind what).Regular length base guarded := by
  refine regular_bind (regular_eat hkind) fun eaten => ?_
  cases eaten with
  | true => exact regular_pure true
  | false =>
    let report (span : Span) (ended : Bool) : Diagnostic :=
      (Diagnostic.report (if ended = true then .unexpectedEof else .unexpectedToken) span
        (some ("expected " ++ what))).withExpected [kind]
    have hreport : (currentSpan >>= fun span => atEnd >>= fun ended =>
        ofStep (.reportOnce span.start (report span ended))).Regular length base guarded := fun ledger hrest _ =>
      (orderly_reporting hrest (fun _ _ => rfl) (fun _ => rfl) (.inl fun _ => rfl)).mono fun _ _ hkept => hkept.1
    have hanswer : ((currentSpan >>= fun span => atEnd >>= fun ended =>
        ofStep (.reportOnce span.start (report span ended))) >>= fun _ => (pure false : Rule Bool)).Regular
          length base guarded := regular_bind hreport fun _ => regular_pure false
    exact hanswer

theorem span_reportAt (span : Span) (ranOut : Bool) (kind : DiagnosticKind) (detail : Option String) :
    (reportAt span ranOut kind detail).span = span := by
  unfold reportAt
  split <;> rfl

/-- Where something is missing, or where a token is known to be here. -/
theorem orderly_reportHere {kind : DiagnosticKind} {detail : Option String} {ledger : Ledger} (hrest : ledger.AtRest)
    (hkind : kind.isEnd = false) (hend : kind.isMissing = true ∨ ∃ here, ledger.kind? = some here ∧ here ≠ .error) :
    (reportHere kind detail).Orderly length base ledger fun _ after =>
      ledger.IsKept guarded after ∧ after.kind? = ledger.kind? := by
  refine orderly_reporting hrest (fun span ended => span_reportAt span ended kind detail) (fun span => hkind) ?_
  refine hend.imp_left fun hmissing span => ?_
  unfold reportAt
  rw [if_pos (by simpa [DiagnosticKind.isMissing] using hmissing)]
  rfl

@[grind ←] theorem regular_reportHere {kind : DiagnosticKind} {detail : Option String} (hmissing : kind.isMissing = true) :
    (reportHere kind detail).Regular length base guarded := fun _ hrest _ =>
  (orderly_reportHere hrest (DiagnosticKind.isEnd_of_isMissing hmissing) (.inl hmissing)).mono fun _ _ hkept => hkept.1

/-- A report about the token here, which is known to be one. -/
theorem regularAt_reportHere {kind : DiagnosticKind} {detail : Option String} {here : Kind} {next : Unit → Rule Unit}
    (hkind : kind.isEnd = false) (hword : here ≠ .error) (hnext : (next ()).RegularAt length base guarded here) :
    (reportHere kind detail >>= next).RegularAt length base guarded here := by
  intro ledger hrest hguarded hhere
  have hreported : (reportHere kind detail).Orderly length base ledger fun _ after =>
      ledger.IsKept guarded after ∧ after.kind? = ledger.kind? :=
    orderly_reportHere hrest hkind (.inr ⟨here, hhere, hword⟩)
  refine (orderly_bind ..).mpr (hreported.mono fun _ after ⟨hkept, hsame⟩ => ?_)
  refine (hnext after hkept.rest (fun hfalse => hkept.own.trans (hguarded hfalse)) (hsame.trans hhere)).mono ?_
  exact fun _ _ hlast => hkept.trans hlast

/-! ### Skipping -/

@[grind .] theorem regular_abandon : abandon.Regular length base guarded := by grind [abandon]

@[grind .] theorem regular_advanceAsError : advanceAsError.Regular length base guarded := by grind [advanceAsError]

@[grind .] theorem regular_advanceGarbage : advanceGarbage.Regular length base guarded := by grind [advanceGarbage]

theorem regular_skipUntil (recovery : TokenSet) : (skipUntil recovery).Regular length base false := by
  have hagain : (call (.skipUntil recovery)).Regular length base false := regular_callSkip fun _ hown => hown
  grind [skipUntil]

theorem regular_skipToStatement : skipToStatement.Regular length base false := by
  have hagain : (call .skipToStatement).Regular length base false := regular_callSkip fun _ hown => hown
  grind [skipToStatement]

@[grind ←] theorem regular_recover {kind : DiagnosticKind} {detail : String} {recovery : TokenSet}
    (hmissing : kind.isMissing = true) :
    (recover kind detail recovery).Regular length base guarded := by
  have hskip : (call (.skipUntil recovery)).Regular length 0 false := regular_callSkip fun _ hown => hown
  grind [recover]

@[grind .] theorem regular_recoverStatement : recoverStatement.Regular length base guarded := by
  have hskip : (call .skipToStatement).Regular length 0 false := regular_callSkip fun _ hown => hown
  grind [recoverStatement]

/-! ### Delimiters -/

/-- The opener waits from now on. -/
theorem orderly_openDelimiter {kind : Kind} {ledger : Ledger} (hrest : ledger.AtRest) (hhere : ledger.kind? = some kind)
    (hcloser : kind.closer?.isSome = true) :
    (openDelimiter kind).Orderly length base ledger fun _ after =>
      after.AtRest ∧ after.own = kind :: ledger.own ∧ (ledger.bare → after.bare) := by
  have hother : kind.isCloser = false := Bool.eq_false_iff.mpr fun hcloses => by
    rw [Kind.closer?_of_isCloser hcloses] at hcloser
    cases hcloser
  refine ⟨trivial, fun span _ => ⟨⟨hrest.raised, hhere, rfl, hcloser⟩, fun _ _ => ?_⟩⟩
  exact ⟨⟨.inl hrest.left, .inr ⟨kind, hhere, hother⟩⟩, fun _ _ =>
    ⟨⟨rfl, rfl⟩, rfl, fun hbare => ⟨hbare, kind, hhere, hother⟩⟩⟩

/-- The innermost opener is closed or given up. -/
theorem closes_closeDelimiter {close opener : Kind} {construct : String} :
    (closeDelimiter close construct).Closes length base [opener] := by
  intro ledger hrest hown
  have hexpect : (expect close close.displayName >>= fun _ => (pure () : Rule Unit)).Closes length base [] :=
    Regular.closes (by grind)
  refine ⟨⟨hrest, by simp [hown]⟩, fun opener? hopener => ⟨trivial, fun found _ => ?_⟩⟩
  obtain ⟨opener, rfl, -⟩ := hopener
  have hclosed : ledger.own.tail = [] := by
    rw [hown]
    rfl
  show (((if (found == close) = true then (do advance; return true) else return false) : Rule Bool) >>= _).Orderly _ _ _ _
  cases found == close with
  | true =>
    refine ⟨⟨.inr rfl, .inl ⟨hclosed, hrest.raised⟩⟩, fun _ _ => ⟨⟨rfl, rfl⟩, ?_⟩⟩
    show ledger.raised?.toList ++ ledger.own.tail = []
    rw [hrest.raised, hclosed]
    rfl
  | false =>
    refine ⟨trivial, fun ended _ => ?_⟩
    cases ended with
    | false => exact hexpect _ ⟨hrest.raised, rfl⟩ hclosed
    | true =>
      refine ⟨trivial, fun span hspan => ?_⟩
      obtain rfl : span = ⟨length, length⟩ := hspan.1 trivial
      let unclosed : Diagnostic := (Diagnostic.report (unclosedKind opener.kind) ⟨opener.span.start, length⟩
        (some ("expected " ++ close.displayName))).withRelated ⟨opener.span, construct ++ " started here"⟩
      have hblames : unclosed.Blames length opener := ⟨rfl, rfl, rfl⟩
      refine ⟨.inr ⟨trivial, rfl, .inr ⟨opener, rfl, hblames⟩⟩, fun _ _ => ⟨⟨hrest.raised, ?_⟩, hclosed⟩⟩
      exact if_pos hblames.isEnd

/-- The opener is here, and what goes on behind it closes it. -/
theorem regularAt_opened {α : Type} {opener : Kind} {next : Unit → Rule α} (hcloser : opener.closer?.isSome = true)
    (hnext : (next ()).Closes length base [opener]) :
    (openDelimiter opener >>= next).RegularAt length base false opener := by
  intro ledger hrest hguarded hhere
  have hown := hguarded rfl
  refine (orderly_bind ..).mpr ((orderly_openDelimiter hrest hhere hcloser).mono fun _ opened hopened => ?_)
  refine (hnext opened hopened.1 (by rw [hopened.2.1, hown])).mono fun _ last ⟨hended, hnone⟩ => ?_
  exact ⟨hended, hnone.trans hown.symm, nofun⟩

/-- What stands between an opener and its closer may hold no closer of its own. -/
theorem regularAt_delimited {α : Type} {opener close : Kind} {construct : String} {inner : Rule Unit}
    {next : Unit → Rule α} (hcloser : opener.closer?.isSome = true) (hinner : inner.Regular length base true)
    (hnext : (next ()).Regular length base false) :
    (openDelimiter opener >>= fun _ => inner >>= fun _ => closeDelimiter close construct >>= next).RegularAt length base
      false opener :=
  regularAt_opened hcloser (hinner.bindCloses fun _ => closes_closeDelimiter.bind fun _ => hnext.closes)

theorem regularAt_closed {opener close : Kind} {construct : String} {inner : Rule Unit}
    (hcloser : opener.closer?.isSome = true) (hinner : inner.Regular length base true) :
    (openDelimiter opener >>= fun _ => inner >>= fun _ => closeDelimiter close construct).RegularAt length base false
      opener :=
  regularAt_opened hcloser (hinner.bindCloses fun _ => closes_closeDelimiter)

/-! ### Ends of statements -/

@[grind .] theorem regular_expectTerminator (what : String) : (expectTerminator what).Regular length base guarded := by
  have hends : (eat .semicolon <||> atEnd <||> currentIs .braceClose <||> ofStep .afterLineBreak).Regular length base
      guarded := by grind
  grind [expectTerminator]

/-! ### Collections -/

@[grind .] theorem regular_startsExpression : startsExpression.Regular length base guarded := regular_currentIn _

@[grind .] theorem regular_startsExpressionOrTable : startsExpressionOrTable.Regular length base guarded := by
  grind [startsExpressionOrTable]

@[grind .] theorem regular_startsStatement : startsStatement.Regular length base guarded := regular_currentIn _

@[grind .] theorem regular_expression : expression.Regular length base guarded := by grind [expression]

@[grind .] theorem regular_expressionOrTable : expressionOrTable.Regular length base guarded := by
  grind [expressionOrTable]

@[grind .] theorem regular_literal (kind : Kind) : (literal kind).Regular length base guarded := by
  have hother (node : Kind) (hnode : literalNode? kind = some node) : node ≠ .ifStatement := by
    rintro rfl
    cases kind <;> cases hnode
  grind [literal]

@[grind .] theorem regular_negativeLiteral : negativeLiteral.Regular length base guarded := by
  grind [negativeLiteral]

theorem regularAt_array : array.RegularAt length base guarded .bracketOpen :=
  regularAt_node nofun (regularAt_closed rfl (by grind))

@[grind .] theorem regular_elements : elements.Regular length base guarded := by grind [elements]

theorem regularAt_table : table.RegularAt length base guarded .braceOpen :=
  regularAt_node nofun (regularAt_closed rfl (by grind))

@[grind .] theorem regular_constValue : constValue.Regular length base guarded := by
  refine regular_byKind fun kind => ?_
  split
  · exact Regular.regularAt (by grind) _
  · exact regularAt_array
  · exact regularAt_table
  all_goals exact Regular.regularAt (by grind) _

@[grind .] theorem regular_callArguments : callArguments.Regular length base guarded :=
  regular_node nofun (regular_ifCurrentIs (regularAt_closed rfl (by grind)) (by grind))

@[grind .] theorem regular_arguments : arguments.Regular length base guarded := by grind [arguments]

@[grind .] theorem regular_parameters : parameters.Regular length base guarded := by
  have hlist : (call (.parameterList [] 0)).Regular length 0 true := regular_call rfl fun _ _ hmem => nomatch hmem
  exact regular_node nofun (regular_ifCurrentIs (regularAt_closed rfl hlist) (by grind))

theorem regular_checkVariadics {variadics : List (Nat × Span)} (hinside : ∀ variadic ∈ variadics, variadic.2.IsInside length)
    (count : Nat) : (checkVariadics count variadics).Regular length base guarded := by
  induction variadics with
  | nil => exact regular_pure ()
  | cons variadic rest ih =>
    obtain ⟨hvariadic, hrest⟩ := List.forall_mem_cons.mp hinside
    have hreport : (ofStep (.report (.report .variadicNotLast variadic.2 none))).Regular length base guarded :=
      fun ledger hrest _ => ⟨⟨rfl, hvariadic⟩, fun _ _ => .refl hrest⟩
    have hgoes := ih hrest
    grind [checkVariadics]

/-- A variadic parameter that is remembered has a span of some text. -/
theorem regular_parameterList {variadics : List (Nat × Span)}
    (hinside : ∀ variadic ∈ variadics, variadic.2.IsInside length) (count : Nat) :
    (parameterList variadics count).Regular length base guarded := by
  have hgoesOn {variadics : List (Nat × Span)} (hinside : ∀ variadic ∈ variadics, variadic.2.IsInside length)
      (next last : Nat) : (eat .comma >>= fun again => if again = true then call (.parameterList variadics next)
        else checkVariadics last variadics).Regular length base guarded := by
    have hcheck : (checkVariadics last variadics).Regular length base guarded := regular_checkVariadics hinside last
    have hagain : (call (.parameterList variadics next)).Regular length base guarded := regular_call rfl fun _ => hinside
    grind
  have hends : (stopped <||> currentIs .parenClose).Regular length base guarded := by grind
  refine regular_bind hends fun ends => ?_
  cases ends with
  | true => exact regular_checkVariadics hinside count
  | false =>
    refine regular_byKind fun kind => ?_
    split
    · refine Regular.regularAt (regular_bind ?_ fun _ => hgoesOn hinside _ _) _
      grind
    · intro ledger hrest hguarded hhere
      refine ⟨trivial, fun span hspan => ?_⟩
      have hvariadic : span.IsInside length := hspan.2 .ellipsis hhere nofun
      have hmore : ∀ variadic ∈ variadics ++ [(count, span)], variadic.2.IsInside length :=
        List.forall_mem_append.mpr ⟨hinside, List.forall_mem_singleton.mpr hvariadic⟩
      have hplaced : (node .parameter advance >>= fun _ => eat .comma >>= fun again => if again = true then
          call (.parameterList (variadics ++ [(count, span)]) (count + 1))
        else checkVariadics (count + 1) (variadics ++ [(count, span)])).Regular length base guarded :=
        regular_bind (regular_node nofun regular_advance) fun _ => hgoesOn hmore _ _
      refine (hplaced (Step.currentSpan.record ledger span) ⟨hrest.raised, hrest.left⟩ hguarded).mono fun _ _ hkept => ?_
      exact ⟨hkept.rest, hkept.own, hkept.bare⟩
    · refine Regular.regularAt (regular_bind ?_ fun _ => hgoesOn hinside _ _) _
      grind

/-! ### Definitions -/

@[grind .] theorem regular_body (owner : String) : (body owner).Regular length base guarded := by grind [body]

theorem regular_path {separator : Kind} (hseparator : separator.isCloser = false) :
    (path separator).Regular length base guarded := by
  grind [path]

@[grind .] theorem regular_functionDeclaration : functionDeclaration.Regular length base guarded := by
  refine regular_node nofun (regular_bind regular_advance fun _ => regular_bind (regular_expect nofun) fun named => ?_)
  exact regular_ifThen (regular_callPath rfl) (by grind)

theorem regularAt_attributes : attributes.RegularAt length base guarded .attributeOpen :=
  regularAt_node nofun (regularAt_closed rfl (by grind))

@[grind .] theorem regular_attributesGoOn : attributesGoOn.Regular length base guarded := by grind [attributesGoOn]

@[grind .] theorem regular_attributeList : attributeList.Regular length base guarded := by
  have hentry : (node .attributeEntry do
      advance
      if ← expect .equals "`=` after attribute name" then constValue).Regular length base guarded :=
    regular_node nofun (by grind)
  grind [attributeList]

@[grind .] theorem regular_optionalAttributes : optionalAttributes.Regular length base guarded :=
  regular_ifCurrentIs regularAt_attributes (regular_pure ())

@[grind .] theorem regular_memberValue (isNamed : Bool) (what : String) :
    (memberValue isNamed what).Regular length base guarded := by
  grind [memberValue]

@[grind .] theorem regular_member : member.Regular length base guarded := by
  refine regular_node nofun (regular_bind regular_optionalAttributes fun _ => regular_byKind fun kind => ?_)
  split
  · exact Regular.regularAt (by grind) _
  · exact Regular.regularAt (by grind) _
  · exact regularAt_delimited rfl regular_expression (regular_memberValue _ _)
  all_goals exact Regular.regularAt (by grind) _

@[grind .] theorem regular_members : members.Regular length base guarded := by grind [members]

@[grind .] theorem regular_classDeclaration : classDeclaration.Regular length base guarded := by
  refine regular_node nofun (regular_bind regular_advance fun _ => regular_bind (regular_expect nofun) fun named => ?_)
  refine regular_ifThen (regular_callPath rfl) (regular_bind (regular_eat nofun) fun extends? => ?_)
  refine regular_ifThen (regular_expect nofun) (regular_bind regular_optionalAttributes fun _ => ?_)
  exact regular_ifCurrentIs (regularAt_closed rfl (by grind)) (by grind)

@[grind .] theorem regular_enumEntries : enumEntries.Regular length base guarded := by
  have hentry : (node .enumEntry do
      advance
      if ← eat .equals then constValue).Regular length base guarded := regular_node nofun (by grind)
  grind [enumEntries]

@[grind .] theorem regular_enumDeclaration : enumDeclaration.Regular length base guarded := by
  refine regular_node nofun (regular_bind regular_advance fun _ => regular_bind (regular_expect nofun) fun named => ?_)
  refine regular_bind regular_optionalAttributes fun _ => ?_
  exact regular_ifCurrentIs (regularAt_delimited rfl (by grind) (by grind)) (by grind)

@[grind .] theorem regular_constDeclaration : constDeclaration.Regular length base guarded := by
  refine regular_node nofun (regular_bind regular_advance fun _ => regular_bind (regular_expect nofun) fun named => ?_)
  grind

/-! ### Expressions -/

theorem regularAt_parenthesized : parenthesized.RegularAt length base guarded .parenOpen :=
  regularAt_node nofun (regularAt_closed rfl regular_expression)

@[grind .] theorem regular_lambda : lambda.Regular length base guarded := by grind [lambda]

@[grind .] theorem regular_anonymousFunction : anonymousFunction.Regular length base guarded := by
  grind [anonymousFunction]

@[grind ←] theorem regular_keywordOperand {kind : Kind} (hkind : kind ≠ .ifStatement) :
    (keywordOperand kind).Regular length base guarded := by
  grind [keywordOperand]

@[grind .] theorem regular_prefixed : prefixed.Regular length base guarded := by grind [prefixed]

/-- The brace of a table is here, so that a report about it is about some text. -/
theorem regularAt_tableOperand (allowed : Bool) :
    (tableOperand allowed).RegularAt length base guarded .braceOpen := by
  cases allowed with
  | true => exact regularAt_table
  | false => exact regularAt_reportHere rfl nofun (regularAt_node nofun regularAt_table)

@[grind .] theorem regular_operand (tableAllowed : Bool) : (operand tableAllowed).Regular length base guarded := by
  have hglobal : (node .globalVariable do
      advance
      let _ ← expect .id "identifier after `::`").Regular length base guarded := regular_node nofun (by grind)
  have hrawcall : (node .callExpression do
      advance
      callArguments).Regular length base guarded := regular_node nofun (by grind)
  refine regular_byKind fun kind => ?_
  split
  case h_7 => exact regularAt_parenthesized.bind fun _ => regular_pure true
  case h_8 => exact regularAt_array.bind fun _ => regular_pure true
  case h_9 => exact (regularAt_tableOperand tableAllowed).bind fun _ => regular_pure true
  all_goals exact Regular.regularAt (by grind) _

/-- An index starts at its bracket. -/
theorem regularAt_suffix {kind : Kind} {power : Nat} {afterLineBreak : Bool} {found : Suffix}
    (hfound : Suffix.of? power afterLineBreak kind = some found) : (suffix found).RegularAt length 0 false kind := by
  cases found with
  | index =>
    obtain rfl : kind = .bracketOpen := Suffix.starts_of_of? hfound
    exact regularAt_closed rfl regular_expression
  | _ => exact Regular.regularAt (by grind [suffix]) _

/-- Operators take in what has been placed since the start of their expression. -/
theorem orderly_operators {start power : Nat} {ledger : Ledger} (hrest : ledger.AtRest) (hown : ledger.own = [])
    (hbase : base ≤ start) :
    (operators start power).Orderly length base ledger fun _ after => ledger.IsKept guarded after := by
  have hstopped : stopped.Regular length base guarded := regular_stopped
  refine hstopped.andThen hrest hown fun halted after hkept => ?_
  cases halted with
  | true => exact hkept
  | false =>
    have hnone := hkept.own.trans hown
    refine ⟨trivial, fun kind _ => ⟨trivial, fun afterLineBreak _ => ?_⟩⟩
    dsimp only [Rule.bind]
    split
    · exact ⟨⟨hkept.rest.raised, hkept.rest.left⟩, hkept.own, hkept.bare⟩
    · next found hfound =>
      have hplain : found.node ≠ .ifStatement := by cases found <;> simp [Suffix.node]
      refine ⟨⟨hkept.rest.raised, hkept.rest.left⟩, .inr ⟨hnone, hbase⟩, fun hif => absurd hif hplain, ?_⟩
      have hsuffix : (suffix found).RegularAt length 0 false kind := regularAt_suffix hfound
      refine (hsuffix (Step.current.record after kind).inside ⟨hkept.rest.raised, hkept.rest.left⟩ (fun _ => rfl)
        rfl).mono fun _ last hlast => ?_
      refine ⟨hlast.rest, hlast.own, ⟨hlast.rest.raised, hlast.rest.left⟩, ⟨hnone, hbase⟩, ⟨rfl, rfl⟩, hkept.own, ?_⟩
      exact fun hguarded hbare => ⟨hkept.bare hguarded hbare, rfl⟩

theorem orderly_expressionOf {power : Nat} {tableAllowed : Bool} {ledger : Ledger} (hrest : ledger.AtRest)
    (hown : ledger.own = []) :
    (expressionOf power tableAllowed).Orderly length base ledger fun _ after => ledger.IsKept guarded after := by
  have hdescend : (ofStep .descend).Regular length base guarded := regular_descend
  have hoperand : (operand tableAllowed).Regular length base guarded := regular_operand tableAllowed
  have hmissing : (reportHere .expectedExpression none >>= fun _ => ofStep .ascend).Regular length base guarded := by grind
  refine hdescend.andThen hrest hown fun descended after hkept => ?_
  cases descended with
  | false => exact regular_abandon.after hkept fun _ => hown
  | true =>
    refine ⟨trivial, fun start hstart => ?_⟩
    have hmarked : ledger.IsKept guarded (Step.mark.record after start) :=
      ⟨⟨hkept.rest.raised, hkept.rest.left⟩, hkept.own, hkept.bare⟩
    refine hoperand.andThen hmarked.rest (hmarked.own.trans hown) fun found last hlast => ?_
    have hkept := hmarked.trans hlast
    cases found with
    | false => exact hmissing.after hkept fun _ => hown
    | true =>
      refine ⟨hkept.rest, ⟨hkept.own.trans hown, hstart⟩, trivial, fun _ _ => ⟨⟨rfl, rfl⟩, hkept.own, ?_⟩⟩
      exact fun hguarded hbare => ⟨hkept.bare hguarded hbare, rfl⟩

@[grind .] theorem regular_slot : slot.Regular length base guarded := by
  have hvalue {separator : Kind} {what : String} (hseparator : separator.isCloser = false) :
      (expect separator what >>= fun found => if found = true then expressionOrTable else pure ()).Regular length 0 false := by
    grind
  refine regular_node nofun (regular_byKind fun kind => ?_)
  intro ledger hrest hguarded hhere
  refine ⟨trivial, fun next _ => ?_⟩
  have hgoes {rule : Rule Unit} (hrule : rule.RegularAt length 0 false kind) :
      rule.Orderly length 0 ledger fun _ after => ledger.IsKept false after := hrule ledger hrest hguarded hhere
  refine hgoes ?_
  show (if (kind == .id && next == .equals) = true then _ else _ : Rule Unit).RegularAt _ _ _ _
  split
  · exact Regular.regularAt (by grind) _
  · split
    · next hkind =>
      rw [eq_of_beq hkind]
      exact regularAt_delimited rfl regular_expression (hvalue rfl)
    · split
      · exact regular_functionDeclaration.regularAt _
      · exact (regular_bind (by grind) fun _ => hvalue rfl).regularAt _

@[grind .] theorem regular_slots : slots.Regular length base guarded := by grind [slots]

/-! ### Statements -/

theorem regularAt_block : block.RegularAt length base guarded .braceOpen :=
  regularAt_node nofun (regularAt_closed rfl (by grind))

@[grind .] theorem regular_blockStatements : blockStatements.Regular length base guarded := by grind [blockStatements]

@[grind .] theorem regular_parenHeader (construct : String) : (parenHeader construct).Regular length base false := by
  refine regular_ifCurrentIs (regularAt_closed rfl regular_expression) ?_
  grind

@[grind .] theorem regular_ifBody : ifBody.Regular length base false := by
  have hrest : (body "`if` branch" >>= fun _ => currentIs .kwElse >>= fun follows => if follows = true then
      node .elseStatement do
        advance
        body "`else` branch"
    else pure ()).Regular length base false := by grind
  refine regular_bind regular_advance fun _ => regular_ifCurrentIs ?_ ?_
  · exact regularAt_parenthesized.bind fun _ => hrest
  · exact regular_bind (regular_expect nofun) fun _ => hrest

@[grind .] theorem regular_whileStatement : whileStatement.Regular length base guarded := by grind [whileStatement]

@[grind .] theorem regular_doWhileStatement : doWhileStatement.Regular length base guarded := by
  refine regular_node nofun (regular_bind regular_advance fun _ => regular_bind (regular_body _) fun _ => ?_)
  refine regular_bind (regular_expect nofun) fun found => regular_ifThen (regular_parenHeader _) (by grind)

@[grind .] theorem regular_optionalExpression : optionalExpression.Regular length base guarded := by
  grind [optionalExpression]

@[grind .] theorem regular_localBindings : localBindings.Regular length base guarded := by
  have hbinding : (node .localBinding do
      advance
      if ← currentIs .equals <||> currentIs .newSlot then
        advance
        expressionOrTable).Regular length base guarded := regular_node nofun (by grind)
  grind [localBindings]

@[grind .] theorem regular_localDeclaration (isStatement : Bool) :
    (localDeclaration isStatement).Regular length base guarded := by
  cases isStatement <;> grind [localDeclaration]

@[grind .] theorem regular_caseStatements : caseStatements.Regular length base guarded := by grind [caseStatements]

@[grind .] theorem regular_caseClause : caseClause.Regular length base guarded := by grind [caseClause]

@[grind .] theorem regular_defaultClause : defaultClause.Regular length base guarded := by
  refine regular_node nofun (regular_bind regular_advance fun _ => ?_)
  grind

@[grind .] theorem regular_returnStatement : returnStatement.Regular length base guarded := by grind [returnStatement]

@[grind .] theorem regular_yieldStatement : yieldStatement.Regular length base guarded := by
  refine regular_node nofun (regular_bind regular_advance fun _ => regular_bind ?_ fun starts => ?_)
  · grind
  · exact regular_ifThen regular_expression (regular_expectTerminator _)

@[grind .] theorem regular_throwStatement : throwStatement.Regular length base guarded := by grind [throwStatement]

@[grind .] theorem regular_varStatement : varStatement.Regular length base guarded := by
  refine regular_node nofun (regular_bind regular_advance fun _ => regular_bind (regular_expect nofun) fun named => ?_)
  have hends : (eat .semicolon >>= fun _ => (pure () : Rule Unit)).Regular length 0 false := by grind
  split
  · exact regular_bind (regular_expect nofun) fun valued => regular_ifThen regular_expressionOrTable hends
  · exact hends

@[grind .] theorem regular_expressionStatement : expressionStatement.Regular length base guarded := by
  grind [expressionStatement]

/-! ### Headers -/

/-- A header may be opened and closed by rules that are apart. -/
theorem closes_openHeader {statement : String} {next : Bool → Rule Unit}
    (hnext : ∀ opened, (next opened).Closes length base (if opened = true then [.parenOpen] else [])) :
    (openHeader statement >>= next).Regular length base false := by
  have hopened : (openDelimiter .parenOpen >>= fun _ => next true).RegularAt length base false .parenOpen :=
    regularAt_opened rfl (hnext true)
  have hmissing : (expect .parenOpen ("`(` after " ++ statement) >>= fun _ => next false).Regular length base false :=
    regular_bind (regular_expect nofun) fun _ => (hnext false).regular
  refine regular_byKind fun kind => ?_
  show ((if (kind == .parenOpen) = true then openDelimiter .parenOpen >>= fun _ => pure true
    else expect .parenOpen ("`(` after " ++ statement) >>= fun _ => pure false) >>= next).RegularAt length base false kind
  split
  · next hopens =>
    rw [eq_of_beq hopens]
    exact hopened
  · intro ledger hrest hguarded _
    refine (orderly_bind ..).mpr ((orderly_bind ..).mpr ?_)
    have hnext := (orderly_bind ..).mp (hmissing ledger hrest hguarded)
    exact hnext

theorem closes_closeHeader (opened : Bool) (construct : String) :
    (closeHeader opened construct).Closes length base (if opened = true then [.parenOpen] else []) := by
  cases opened with
  | true => exact closes_closeDelimiter
  | false => exact Regular.closes (regular_bind (regular_expect nofun) fun _ => regular_pure ())

@[grind .] theorem regular_forStatement : forStatement.Regular length base guarded := by
  have hclauses (opened : Bool) : (expect .semicolon "`;` after `for` initializer" >>= fun _ => optionalExpression >>=
      fun _ => expect .semicolon "`;` after `for` condition" >>= fun _ => optionalExpression >>= fun _ =>
        closeHeader opened "`for` header" >>= fun _ => body "`for` body").Closes length 0
          (if opened = true then [.parenOpen] else []) := by
    refine (regular_expect fun _ => rfl).bindCloses fun _ => regular_optionalExpression.bindCloses fun _ => ?_
    refine (regular_expect fun _ => rfl).bindCloses fun _ => regular_optionalExpression.bindCloses fun _ => ?_
    exact (closes_closeHeader opened _).bind fun _ => (regular_body _).closes
  refine regular_node nofun (regular_bind regular_advance fun _ => closes_openHeader fun opened => ?_)
  refine (regular_currentIs _).bindCloses fun isLocal => ?_
  cases isLocal with
  | true => exact (regular_localDeclaration false).bindCloses fun _ => hclauses opened
  | false => exact regular_optionalExpression.bindCloses fun _ => hclauses opened

@[grind .] theorem regular_foreachStatement : foreachStatement.Regular length base guarded := by
  have hrange (opened : Bool) : (expect .kwIn "`in`" >>= fun found =>
      let rest := closeHeader opened "`foreach` header" >>= fun _ => body "`foreach` body"
      if found = true then expression >>= fun _ => rest else rest).Closes length 0
        (if opened = true then [.parenOpen] else []) := by
    refine (regular_expect fun _ => rfl).bindCloses fun found => closes_ifThen regular_expression ?_
    exact (closes_closeHeader opened _).bind fun _ => (regular_body _).closes
  refine regular_node nofun (regular_bind regular_advance fun _ => closes_openHeader fun opened => ?_)
  refine (regular_expect fun _ => rfl).bindCloses fun named => ?_
  cases named with
  | true =>
    refine (regular_eat fun _ => rfl).bindCloses fun keyed => ?_
    exact closes_ifThen (regular_expect fun _ => rfl) (hrange opened)
  | false => exact hrange opened

/-! ### More statements -/

/-- A clause is reported where its keyword is. -/
@[grind .] theorem regular_switchClauses (seenDefault : Bool) :
    (switchClauses seenDefault).Regular length base guarded := by
  have hcase : (caseClause >>= fun _ => call (.switchClauses seenDefault)).Regular length base guarded := by grind
  have hdefault : (defaultClause >>= fun _ => call (.switchClauses true)).Regular length base guarded := by grind
  refine regular_bind regular_stopped fun halted => ?_
  cases halted with
  | true => exact regular_pure ()
  | false =>
    refine regular_byKind fun kind => ?_
    split
    · exact (regular_pure ()).regularAt _
    · cases seenDefault with
      | true => exact regularAt_reportHere rfl nofun (hcase.regularAt _)
      | false => exact hcase.regularAt _
    · cases seenDefault with
      | true => exact regularAt_reportHere rfl nofun (hdefault.regularAt _)
      | false => exact hdefault.regularAt _
    · exact Regular.regularAt (by grind) _

@[grind .] theorem regular_switchStatement : switchStatement.Regular length base guarded := by
  refine regular_node nofun (regular_bind regular_advance fun _ => regular_bind (regular_parenHeader _) fun _ => ?_)
  exact regular_ifCurrentIs (regularAt_closed rfl (by grind)) (by grind)

/-- Right behind a token nothing has been reported about the end. -/
theorem regular_advance_expectSemicolon (what : String) :
    (advance >>= fun _ => expectSemicolon what).Regular length base false := by
  intro ledger hrest hguarded
  have hown : ledger.raised?.toList ++ ledger.own = ledger.own := by
    rw [hrest.raised]
    rfl
  have hnone := hown.trans (hguarded rfl)
  refine ⟨⟨.inl hrest.left, .inl ⟨hguarded rfl, hrest.raised⟩⟩, fun _ _ => ⟨trivial, fun kind _ => ?_⟩⟩
  show (((if (kind == .semicolon) = true then (do advance; return true) else return false) : Rule Bool) >>= _).Orderly
    _ _ _ _
  cases kind == .semicolon with
  | true => exact ⟨⟨.inl rfl, .inl ⟨hnone, rfl⟩⟩, fun _ _ => ⟨⟨rfl, rfl⟩, hown, nofun⟩⟩
  | false =>
    refine ⟨trivial, fun token? hinside => ?_⟩
    cases token? with
    | none => exact ⟨⟨rfl, rfl⟩, hown, nofun⟩
    | some token => exact ⟨.inl ⟨.inl trivial, ⟨rfl, hinside token rfl⟩, rfl⟩, fun _ _ => ⟨⟨rfl, rfl⟩, hown, nofun⟩⟩

@[grind .] theorem regular_jumpStatement {kind : Kind} {keyword : String} (hkind : kind ≠ .ifStatement) :
    (jumpStatement kind keyword).Regular length base guarded :=
  regular_node hkind (regular_advance_expectSemicolon keyword)

@[grind .] theorem regular_tryStatement : tryStatement.Regular length base guarded := by
  refine regular_node nofun (regular_bind regular_advance fun _ => regular_bind (regular_body _) fun _ => ?_)
  have hcatch : (node .catchStatement do
      advance
      if ← currentIs .parenOpen then
        openDelimiter .parenOpen
        let _ ← expect .id "exception variable"
        closeDelimiter .parenClose "`catch` binding"
      else
        let _ ← expect .parenOpen "`(` after `catch`"
      body "`catch` body").Regular length 0 false := by
    refine regular_node nofun (regular_bind regular_advance fun _ => regular_ifCurrentIs ?_ ?_)
    · refine regularAt_opened rfl ((regular_expect fun _ => rfl).bindCloses fun _ => ?_)
      exact closes_closeDelimiter.bind fun _ => (regular_body _).closes
    · exact regular_bind (regular_expect nofun) fun _ => regular_body _
  grind

/-- An `if` is built by its own rule, around nothing that has been placed before. -/
theorem regular_ifStatement : ifStatement.Regular length base guarded := by
  intro ledger hrest _
  refine ⟨trivial, fun start _ => ⟨⟨hrest.raised, hrest.left⟩, .inl rfl, fun _ => ⟨rfl, rfl⟩, ?_⟩⟩
  refine (regular_ifBody ledger.inside ⟨hrest.raised, hrest.left⟩ fun _ => rfl).mono fun _ after hkept => ?_
  exact ⟨hkept.rest, hkept.own, ⟨hkept.rest.raised, hkept.rest.left⟩, rfl, fun _ hbare => hbare⟩

@[grind .] theorem regular_knownStatement : knownStatement.Regular length base guarded := by
  refine regular_byKind fun kind => ?_
  split
  · exact regularAt_block
  all_goals exact Regular.regularAt (by grind [regular_ifStatement]) _

@[grind .] theorem regular_statement : statement.Regular length base guarded := by
  grind [statement]

@[grind .] theorem regular_script : script.Regular length base guarded := by
  grind [script]

/-- Every nonterminal closes all that it opens. -/
theorem isOrderly (length : Nat) (nonterminal : Nonterminal) : nonterminal.IsOrderly length := by
  intro base ledger hrest hown hasks
  cases nonterminal with
  | skipUntil recovery => exact regular_skipUntil recovery ledger hrest fun _ => hown
  | skipToStatement => exact regular_skipToStatement ledger hrest fun _ => hown
  | operators start power => exact orderly_operators hrest hown hasks.2
  | expression power tableAllowed => exact orderly_expressionOf hrest hown
  | path separator => exact regular_path hasks ledger hrest fun _ => hown
  | parameterList variadics count => exact regular_parameterList hasks count ledger hrest fun _ => hown
  | script => exact regular_script ledger hrest fun _ => hown
  | statement => exact regular_statement ledger hrest fun _ => hown
  | blockStatements => exact regular_blockStatements ledger hrest fun _ => hown
  | caseStatements => exact regular_caseStatements ledger hrest fun _ => hown
  | switchClauses seenDefault => exact regular_switchClauses seenDefault ledger hrest fun _ => hown
  | localBindings => exact regular_localBindings ledger hrest fun _ => hown
  | arguments => exact regular_arguments ledger hrest fun _ => hown
  | elements => exact regular_elements ledger hrest fun _ => hown
  | slots => exact regular_slots ledger hrest fun _ => hown
  | members => exact regular_members ledger hrest fun _ => hown
  | enumEntries => exact regular_enumEntries ledger hrest fun _ => hown
  | attributeList => exact regular_attributeList ledger hrest fun _ => hown

end Grammar

/-! ### Whole parses -/

/-- Where a parse starts nothing is on record. -/
def Ledger.blank : Ledger where
  kind? := none
  span? := none
  ended := False
  fresh := False
  marked? := none
  raised? := none
  own := []
  left? := none
  bare := False

/-- The frame of a whole source of the given length. -/
def Frame.whole (length : Nat) : Frame where
  length := length
  origin := 0
  outer := []
  older := []
  earlier _ := False

theorem Ledger.holds_blank {limits : Limits} {tokens : List Token} {length : Nat} (htile : Token.Tile 0 tokens length) :
    Ledger.blank.Holds (.whole length) ((State.initial limits tokens length).firstBlank none)
      (State.initial limits tokens length) where
  tiled := htile
  source := rfl
  pending := nofun
  behind := nofun
  spans := nofun
  once := Nat.zero_le 1
  last := ⟨nofun, fun hover => absurd nofun hover⟩
  finished hover := absurd nofun hover
  told := nofun
  blank := State.isSome_firstBlank fun hnone => nomatch hnone
  innermost _ _ := nofun
  kind := nofun
  span := nofun
  ended := False.elim
  fresh := False.elim
  marked := nofun
  openers := ⟨[], [], rfl, rfl, rfl, nofun, nofun⟩
  left := nofun
  waiting first hfirst _ := by
    obtain hfound | ⟨-, rfl⟩ := State.mem_firstBlank hfirst
    · cases hfound
    · rfl
  grown := ⟨[], rfl, fun _ => Tree.noCloser_nil⟩

/-- The first state without a word ahead in the parse of a source. -/
def Script.firstBlank (source : String) (limits : Limits) : Option State :=
  let tokens := (Lexed.ofSource source).tokens
  let initial := State.initial limits tokens source.utf8ByteSize
  Nonterminal.firstBlank (nestingBound tokens.length) .script (initial.firstBlank none) initial

/-- The root and the diagnostics of a script are those of a last state, which bears out all that rules record and has
what a parse upholds. -/
theorem Script.exists_last {upheld : State → Prop} {source : String} {limits : Limits} {script : Script}
    (hupheld : State.Upheld upheld)
    (hinitial : upheld (State.initial limits (Lexed.ofSource source).tokens source.utf8ByteSize))
    (hparse : Script.parse source limits = .ok script) :
    ∃ last : State, upheld last ∧ last.InOrder (.whole source.utf8ByteSize) (Script.firstBlank source limits) ∧
      script.root = .node .script last.placed.reverse ∧
      script.diagnostics.Perm ((Lexed.ofSource source).diagnostics ++ last.reports) := by
  obtain ⟨parsed, hparsed, rfl⟩ := Script.parse_ok hparse
  obtain ⟨after, hrun, -, rfl⟩ := parseTokens_ok hparsed
  obtain ⟨hholds, hafter⟩ := Nonterminal.records_of_run hupheld (Grammar.isOrderly source.utf8ByteSize) _ .script
    Ledger.blank (.whole source.utf8ByteSize) _ _ _ rfl ⟨rfl, rfl⟩ trivial
    (Ledger.holds_blank (Lexed.tile_ofSource source).1) hinitial hrun
  refine ⟨_, hupheld.step .placeTrivia rfl hafter, hholds.passTrivia.placePending.toInOrder, rfl, ?_⟩
  exact (List.mergeSort_perm _ _).trans ((List.reverse_perm _).append_left _)

end Squirrel

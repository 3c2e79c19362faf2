import Squirrel.Proofs.Grammar.Ensures

/-!
# Collections are read by their productions

What calls of nonterminals have to read, and with it that literals, arrays, tables, constants, arguments and parameters
are read as the productions say. A list that ends before a closer does so only where the closer follows, as its rule also
stops where nothing is left.
-/

namespace Squirrel

open Word in
/-- Calls read the phrases of their nonterminals. -/
structure SoundCalls (readCall : Nonterminal → View → Option View) : Prop where
  ahead {nonterminal : Nonterminal} {view after : View} :
    readCall nonterminal view = some after → after.ahead <:+ view.ahead
  script {view after : View} : readCall .script view = some after → view.Reads [.part .script] after
  statement {view after : View} : readCall .statement view = some after → view.words ≠ [] →
    view.Reads [.part .statement] after
  noStatement {view after : View} : readCall .statement view = some after → view.words = [] → view.Reads [] after
  blockStatements {view after : View} : readCall .blockStatements view = some after → here after.words = .braceClose →
    view.Reads [.part .blockStatements] after
  caseStatements {view after : View} : readCall .caseStatements view = some after → after.words ≠ [] →
    view.Reads [.part .caseStatements] after
  switchClauses {seenDefault : Bool} {view after : View} : readCall (.switchClauses seenDefault) view = some after →
    here after.words = .braceClose → view.Reads (if seenDefault then [] else [.part .switchClauses]) after
  localBindings {view after : View} : readCall .localBindings view = some after → view.Reads [.part .bindings] after
  expression {power : Nat} {tableAllowed : Bool} {view after : View} :
    readCall (.expression power tableAllowed) view = some after →
      view.Reads [.part (.expression power tableAllowed)] after
  /-- The operators after an operand take in what has been placed since the start of the expression. -/
  operators {start power : Nat} {tableAllowed : Bool} {view after : View} {since base lefts : List Tree}
    {words : List Word} : readCall (.operators start power) view = some after → view.Tidy →
      view.placed = since ++ base → base.length = start → Tree.items since.reverse = lefts →
      Derives [.part (.chain power tableAllowed)] words view.words lefts →
      after.Tidy ∧ ∃ since', after.placed = since' ++ base ∧
        Derives [.part (.expression power tableAllowed)] words after.words (Tree.items since'.reverse)
  arguments {view after : View} : readCall .arguments view = some after → here after.words = .parenClose →
    view.Reads [.part .arguments] after
  elements {view after : View} : readCall .elements view = some after → here after.words = .bracketClose →
    view.Reads [.part .elements] after
  slots {view after : View} : readCall .slots view = some after → here after.words = .braceClose →
    view.Reads [.part .slots] after
  /-- Variadic parameters come last. -/
  variadics {variadics : List (Nat × Span)} {count : Nat} {view after : View} :
    readCall (.parameterList variadics count) view = some after → ∀ variadic ∈ variadics, count ≤ variadic.1 + 1
  parameterList {count : Nat} {view after : View} : readCall (.parameterList [] count) view = some after →
    here after.words = .parenClose → view.Reads [.part .parameterList] after
  noParameters {variadics : List (Nat × Span)} {count : Nat} {view after : View} :
    readCall (.parameterList variadics count) view = some after → here after.words = .parenClose →
      (∃ variadic ∈ variadics, variadic.1 < count) → view.Reads [] after
  path {separator : Kind} {view after : View} : readCall (.path separator) view = some after →
    view.Reads [.part (.path separator)] after
  members {view after : View} : readCall .members view = some after → here after.words = .braceClose →
    view.Reads [.part .members] after
  enumEntries {view after : View} : readCall .enumEntries view = some after → here after.words = .braceClose →
    view.Reads [.part .enumEntries] after
  attributeList {view after : View} : readCall .attributeList view = some after →
    here after.words = .attributeClose → view.Reads [.part .attributeList] after

namespace Grammar

open Word Rule

variable {readCall : Nonterminal → View → Option View} {view : View}

/-! ### Literals -/

theorem sound_literal {kind : Kind} (hsettled : view.Settled) (hhere : here view.words = kind) :
    (literal kind).Ensures readCall view fun answer after =>
      if answer then view.Reads [.part .literal] after else after = view ∧ literalNode? kind = none := by
  rw [literal]
  split
  · next hnone => exact ensures_pure ⟨rfl, hnone⟩
  · next node hnode =>
    refine ensures_then (ensures_tight (.literal hnode) fun start hwords _ hstart hpending hplaced => ?_)
      fun _ after hliteral => ensures_pure hliteral
    intro answer stop hread
    rw [read_advance, Option.map_eq_some_iff] at hread
    obtain ⟨found, hadvance, hfound⟩ := hread
    simp only [Prod.mk.injEq, true_and] at hfound
    subst hfound
    obtain ⟨word, htakes, hafter, hnone⟩ := takes_exactly (hstart hsettled) hpending hadvance
    have hkind : word.kind = kind := by rw [← hhere, ← hwords, htakes.words]; rfl
    exact ⟨[word.tree], htakes.words ▸ .word hkind .nil, by rw [hafter, hplaced]; rfl, hnone⟩

theorem kind_of_isFoldable {token : Token} (hfoldable : State.isFoldable token = true) :
    token.kind = .integerLit ∨ token.kind = .floatLit := by
  rw [State.isFoldable] at hfoldable
  split at hfoldable
  · next hkind => exact .inl hkind
  · next hkind => exact .inr hkind
  · simp at hfoldable

/-- A number that belongs to the minus sign here is the very next token. -/
theorem exists_number (hsettled : view.Settled) (hfollows : NumberFollows view.words) :
    ∃ minus number rest, view.ahead = minus :: number :: rest ∧ number.kind = here view.words.tail ∧
      (number.kind = .integerLit ∨ number.kind = .floatLit) := by
  cases hahead : view.ahead with
  | nil => simp [NumberFollows, View.words, hahead, ofTokens] at hfollows
  | cons minus others =>
    rw [NumberFollows, View.words_of_settled hsettled hahead, List.tail_cons, head?_any_folds] at hfollows
    cases others with
    | nil => simp at hfollows
    | cons number rest =>
      have hkind : number.kind = .integerLit ∨ number.kind = .floatLit := kind_of_isFoldable hfollows
      have hword : number.kind.isTrivia = false := by
        obtain hkind | hkind := hkind <;> rw [hkind] <;> rfl
      refine ⟨minus, number, rest, rfl, ?_, hkind⟩
      rw [View.words_of_settled hsettled hahead, List.tail_cons, ofTokens_word hword]
      rfl

theorem settled_of_number {after : View} {minus number : Token} {rest : List Token}
    (hahead : view.ahead = minus :: number :: rest) (hnumber : number.kind = .integerLit ∨ number.kind = .floatLit)
    (hadvance : view.advance = some after) : after.Settled := by
  simp only [View.advance, hahead] at hadvance
  split at hadvance
  · simp at hadvance
  · simp only [Option.some.injEq] at hadvance
    refine View.passTrivia_eq_self fun token hmem => ?_
    simp only [← hadvance, List.head?_cons, Option.mem_some_iff] at hmem
    obtain hnumber | hnumber := hnumber <;> rw [← hmem, hnumber] <;> rfl

theorem sound_negativeLiteral (hsettled : view.Settled) (hhere : here view.words = .minus)
    (hfollows : NumberFollows view.words) :
    negativeLiteral.Ensures readCall view fun _ after => view.Reads [.part .negative] after := by
  obtain ⟨minus, number, rest, hahead, hsecond, hnumber⟩ := exists_number hsettled hfollows
  -- both moves of the inner rule, for whichever number follows
  have hinner (start : View) (hwords : start.words = view.words) (hstart : start.Settled)
      (hsame : start.ahead = view.ahead) (hpending : start.pending = []) (hplaced : start.placed = []) :
      (do advance; advance : Rule Unit).Ensures readCall start fun _ stop =>
        ∃ parts, Derives [.check NumberFollows, .word .minus, .word number.kind] start.words stop.words parts ∧
          stop.placed = parts.reverse ∧ stop.pending = [] := by
    intro answer stop hread
    obtain ⟨⟨⟩, middle, hleft, hright⟩ := read_bind_some hread
    simp only [read_advance, Option.map_eq_some_iff, Prod.mk.injEq, true_and, exists_eq_right] at hleft hright
    obtain ⟨sign, hsign, hplaced', hpending'⟩ := takes_exactly hstart hpending hleft
    have hmiddle := settled_of_number (hsame.trans hahead) hnumber hleft
    obtain ⟨digits, hdigits, hplaced'', hpending''⟩ := takes_exactly hmiddle hpending' hright
    have hwords' : view.words = sign :: digits :: stop.words := by rw [← hwords, hsign.words, hdigits.words]
    refine ⟨[sign.tree, digits.tree], ?_, by rw [hplaced'', hplaced', hplaced]; rfl, hpending''⟩
    rw [hwords, hwords']
    rw [hwords'] at hhere hsecond hfollows
    exact .check hfollows (.word hhere (.word hsecond.symm .nil))
  rw [negativeLiteral]
  refine ensures_bind fun kind between hadjacent => ?_
  rw [read_ofStep, Step.read, hsettled, hahead] at hadjacent
  simp only [List.tail_cons, State.kindOf, Option.some.injEq, Prod.mk.injEq] at hadjacent
  obtain ⟨rfl, rfl⟩ := hadjacent
  obtain hkind | hkind := hnumber
  · rw [hkind]
    exact ensures_tight .negativeInteger fun start hwords hsame hstart hpending hplaced =>
      hkind ▸ hinner start hwords (hstart hsettled) hsame hpending hplaced
  · rw [hkind]
    exact ensures_tight .negativeFloat fun start hwords hsame hstart hpending hplaced =>
      hkind ▸ hinner start hwords (hstart hsettled) hsame hpending hplaced

theorem ensures_numberFollows {result : Bool → View → Prop}
    (hyes : NumberFollows view.words → result true view.passTrivia)
    (hno : ¬NumberFollows view.words → result false view.passTrivia) :
    (ofStep .numberFollows).Ensures readCall view result := by
  intro answer after hread
  rw [read_ofStep, Step.read, View.numberFollows_eq, Option.some.injEq, Prod.mk.injEq] at hread
  obtain ⟨rfl, rfl⟩ := hread
  by_cases hfollows : NumberFollows view.words
  · exact Eq.mpr (congrArg (result · _) hfollows) (hyes hfollows)
  · exact Eq.mpr (congrArg (result · _) (Bool.not_eq_true _ ▸ hfollows)) (hno hfollows)

/-! ### Arrays -/

variable (hcalls : SoundCalls readCall)

include hcalls

theorem sound_array (hhere : here view.words = .bracketOpen) :
    array.Ensures readCall view fun _ after => view.Reads [.part .array] after := by
  refine ensures_node .array fun start hwords _ => ?_
  refine ensures_bind (ensures_open (hwords ▸ hhere) fun opened hopen => ?_)
  refine ensures_bind (ensures_call fun between helements => ?_)
  exact ensures_close fun after hcloses hclose => hopen.append ((hcalls.elements helements hcloses).append hclose)

theorem sound_elements : elements.Ensures readCall view fun _ after =>
    here after.words = .bracketClose → view.Reads [.part .elements] after := by
  rw [elements]
  refine ensures_bind (ensures_ending (fun _ => ?_) (ensures_currentIs (fun _ => ?_) fun _ => ?_))
  · exact ensures_pure fun _ => .bare .elementsEnd (.nil view)
  · exact ensures_pure fun _ => .bare .elementsEnd (.of_passTrivia (.nil _))
  · refine ensures_bind (ensures_startsExpressionOrTable ?_ fun _ => ensures_of_none_bind (read_recover ..))
    refine ensures_bind (ensures_call fun first hfirst => ?_)
    refine ensures_bind (ensures_optional fun _ second hcomma => ?_)
    refine ensures_call fun after hrest hcloses => ?_
    rw [view.settled_passTrivia] at hfirst
    exact .of_passTrivia (.bare .elementsMore
      ((hcalls.expression hfirst).append (hcomma.append (hcalls.elements hrest hcloses))))

/-! ### Tables and constants -/

theorem sound_table (hhere : here view.words = .braceOpen) :
    table.Ensures readCall view fun _ after => view.Reads [.part .table] after := by
  refine ensures_node .table fun start hwords _ => ?_
  refine ensures_bind (ensures_open (hwords ▸ hhere) fun opened hopen => ?_)
  refine ensures_bind (ensures_call fun between hslots => ?_)
  exact ensures_close fun after hcloses hclose => hopen.append ((hcalls.slots hslots hcloses).append hclose)

theorem sound_constValue : constValue.Ensures readCall view fun _ after => view.Reads [.part .constValue] after := by
  rw [constValue]
  refine ensures_bind (ensures_current ?_)
  have hsettled := view.settled_passTrivia
  have hsame := view.words_passTrivia
  split
  case h_1 hhere =>
    refine ensures_bind (ensures_numberFollows (fun hfollows => ?_) fun _ => ensures_of_none (read_reportHere ..))
    rw [hsettled]
    rw [hsame] at hfollows
    refine ensures_mono (sound_negativeLiteral hsettled (hsame ▸ hhere) (hsame ▸ hfollows)) fun _ after hnumber => ?_
    exact .of_passTrivia (.bare .constNegative hnumber)
  case h_2 hhere =>
    refine ensures_mono (sound_array hcalls (hsame ▸ hhere)) fun _ after harray => ?_
    exact .of_passTrivia (.bare .constArray harray)
  case h_3 hhere =>
    refine ensures_mono (sound_table hcalls (hsame ▸ hhere)) fun _ after htable => ?_
    exact .of_passTrivia (.bare .constTable htable)
  case h_4 hhere | h_5 hhere | h_6 hhere =>
    refine ensures_call fun after hname => ?_
    refine .of_passTrivia (.bare .constName (.check ?_ (hcalls.expression hname)))
    rw [hsame, hhere]
    decide
  case h_7 hhere => exact ensures_of_none (read_advanceGarbage (hsame ▸ hhere))
  case h_8 =>
    refine ensures_then (sound_literal hsettled (congrArg here hsame)) fun answer after hliteral => ?_
    cases answer with
    | true => exact ensures_pure (.of_passTrivia (.bare .constLiteral hliteral))
    | false => exact ensures_of_none (read_reportHere ..)

/-! ### Arguments and parameters -/

theorem sound_callArguments :
    callArguments.Ensures readCall view fun _ after => view.Reads [.part .callArguments] after := by
  refine ensures_node .callArguments fun start hwords _ => ?_
  refine ensures_bind (ensures_currentIs (fun hhere => ?_) fun hhere => ?_)
  · refine ensures_bind (ensures_open (start.words_passTrivia ▸ hhere) fun opened hopen => ?_)
    refine ensures_bind (ensures_call fun between harguments => ?_)
    refine ensures_close fun after hcloses hclose => ?_
    exact .of_passTrivia (hopen.append ((hcalls.arguments harguments hcloses).append hclose))
  · exact ensures_of_none_bind (read_expect_eq_none (start.words_passTrivia ▸ hhere))

theorem sound_arguments : arguments.Ensures readCall view fun _ after =>
    here after.words = .parenClose → view.Reads [.part .arguments] after := by
  rw [arguments]
  refine ensures_bind (ensures_ending (fun _ => ?_) (ensures_currentIs (fun _ => ?_) fun _ => ?_))
  · exact ensures_pure fun _ => .bare .argumentsEnd (.nil view)
  · exact ensures_pure fun _ => .bare .argumentsEnd (.of_passTrivia (.nil _))
  · refine ensures_bind (ensures_startsExpressionOrTable ?_ fun _ => ensures_of_none_bind (read_recover ..))
    refine ensures_bind (ensures_call fun first hfirst => ?_)
    rw [view.settled_passTrivia] at hfirst
    have hargument := hcalls.expression hfirst
    refine ensures_bind (ensures_eat (fun second hcomma => ?_) fun _ => ?_)
    · refine ensures_call fun after hrest hcloses => ?_
      exact .of_passTrivia (.bare .moreArguments
        (hargument.append (hcomma.append (hcalls.arguments hrest hcloses))))
    · exact ensures_pure fun _ =>
        .of_passTrivia (.bare .lastArgument (hargument.append (.of_passTrivia (.nil _))))

theorem sound_parameters : parameters.Ensures readCall view fun _ after => view.Reads [.part .parameters] after := by
  refine ensures_node .parameters fun start hwords _ => ?_
  refine ensures_bind (ensures_currentIs (fun hhere => ?_) fun hhere => ?_)
  · refine ensures_bind (ensures_open (start.words_passTrivia ▸ hhere) fun opened hopen => ?_)
    refine ensures_bind (ensures_call fun between hparameters => ?_)
    refine ensures_close fun after hcloses hclose => ?_
    exact .of_passTrivia (hopen.append ((hcalls.parameterList hparameters hcloses).append hclose))
  · exact ensures_of_none_bind (read_expect_eq_none (start.words_passTrivia ▸ hhere))

theorem sound_initialConst {result : Unit → View → Prop}
    (hresult : ∀ after, view.Reads [.part .initialConst] after → result () after) :
    (do if ← eat .equals then constValue : Rule Unit).Ensures readCall view result := by
  refine ensures_bind (ensures_eat (fun between hequals => ?_) fun hhere => ?_)
  · refine ensures_mono (sound_constValue hcalls) fun _ after hvalue => ?_
    exact hresult after (.bare .someInitialConst (hequals.append hvalue))
  · exact ensures_pure (hresult _ (.bare .noInitialConst (.check hhere (.of_passTrivia (.nil _)))))

omit hcalls in
/-- Variadic parameters that all come last change nothing; any other is reported. -/
theorem ensures_checkVariadics {variadics : List (Nat × Span)} {count : Nat} {result : Unit → View → Prop}
    (hresult : (∀ variadic ∈ variadics, variadic.1 + 1 = count) → result () view) :
    (checkVariadics count variadics).Ensures readCall view result := by
  induction variadics with
  | nil => exact ensures_pure (hresult (by simp))
  | cons variadic rest ih =>
    obtain ⟨index, span⟩ := variadic
    by_cases hlast : index + 1 = count
    · have hskip : checkVariadics count ((index, span) :: rest) = checkVariadics count rest := by
        rw [checkVariadics, if_neg (by simpa using hlast)]
      rw [hskip]
      exact ih fun hrest => hresult fun variadic hmem => by
        obtain rfl | hmem := List.mem_cons.mp hmem
        · exact hlast
        · exact hrest variadic hmem
    · refine ensures_of_none ?_
      simp [checkVariadics, hlast, read_bind, read_ofStep, Step.read]

theorem sound_parameterList (variadics : List (Nat × Span)) (count : Nat) :
    (parameterList variadics count).Ensures readCall view fun _ after =>
      (∀ variadic ∈ variadics, count ≤ variadic.1 + 1) ∧
      (here after.words = .parenClose →
        (variadics = [] → view.Reads [.part .parameterList] after) ∧
        ((∃ variadic ∈ variadics, variadic.1 < count) → view.Reads [] after)) := by
  have hsettled := view.settled_passTrivia
  have hsame := view.words_passTrivia
  rw [parameterList]
  refine ensures_bind (ensures_ending (fun _ => ?_) (ensures_currentIs (fun _ => ?_) fun _ => ?_))
  · refine ensures_checkVariadics fun hlast => ⟨fun variadic hmem => Nat.le_of_eq (hlast variadic hmem).symm, fun _ => ⟨?_, ?_⟩⟩
    · exact fun _ => .bare .parametersEnd (.nil view)
    · exact fun _ => .nil view
  · refine ensures_checkVariadics fun hlast => ⟨fun variadic hmem => Nat.le_of_eq (hlast variadic hmem).symm, fun _ => ⟨?_, ?_⟩⟩
    · exact fun _ => .bare .parametersEnd (.of_passTrivia (.nil _))
    · exact fun _ => .of_passTrivia (.nil _)
  refine ensures_bind (ensures_current ?_)
  rw [hsettled, hsame]
  split
  case h_1 hhere =>
    refine ensures_then (ensures_node .parameter fun start hwords hstart => ?_) fun _ between hparameter => ?_
    · refine ensures_bind (ensures_keyword (hstart hsettled) (hwords ▸ hsame ▸ hhere) fun named hname _ => ?_)
      exact sound_initialConst hcalls fun after hvalue => hname.append hvalue
    refine ensures_bind (ensures_eat (fun second hcomma => ensures_call fun after hrest => ?_) fun _ => ?_)
    · have hmore := hcalls.variadics hrest
      refine ⟨fun variadic hmem => Nat.le_trans (Nat.le_succ count) (hmore variadic hmem), fun hcloses => ⟨?_, ?_⟩⟩
      · rintro rfl
        exact .of_passTrivia (.bare .moreParameters
          (hparameter.append (hcomma.append (hcalls.parameterList hrest hcloses))))
      · rintro ⟨variadic, hmem, hlt⟩
        have hlast := hmore variadic hmem
        omega
    · refine ensures_checkVariadics fun hlast => ⟨fun variadic hmem => ?_, fun _ => ⟨?_, ?_⟩⟩
      · have hequal := hlast variadic hmem
        omega
      · exact fun _ => .of_passTrivia (.bare .lastParameter (hparameter.append (.of_passTrivia (.nil _))))
      · rintro ⟨variadic, hmem, hlt⟩
        have hequal := hlast variadic hmem
        omega
  case h_2 hhere =>
    refine ensures_bind fun span between hspan => ?_
    rw [currentSpan, read_ofStep, Step.read, hsettled, Option.some.injEq, Prod.mk.injEq] at hspan
    rw [← hspan.2]
    refine ensures_then (ensures_node .variadic fun start hwords hstart => ?_) fun _ between hvariadic => ?_
    · exact ensures_keyword (hstart hsettled) (hwords ▸ hsame ▸ hhere) fun after hdots _ => hdots
    refine ensures_bind (ensures_eat (fun second hcomma => ensures_call fun after hrest => ?_) fun hcomma => ?_)
    · have hmore := hcalls.variadics hrest
      refine ⟨fun variadic hmem => ?_, fun hcloses => ⟨fun _ => ?_, ?_⟩⟩
      · have hlast := hmore variadic (List.mem_append_left _ hmem)
        omega
      · have hnone := hcalls.noParameters hrest hcloses ⟨(count, span), by simp, Nat.lt_succ_self count⟩
        exact .of_passTrivia (.bare .lastVariadic
          (hvariadic.append ((View.Reads.bare .someToken hcomma).append hnone)))
      · rintro ⟨variadic, hmem, hlt⟩
        have hlast := hmore variadic (List.mem_append_left _ hmem)
        omega
    · refine ensures_checkVariadics fun hlast => ⟨fun variadic hmem => ?_, fun _ => ⟨fun _ => ?_, ?_⟩⟩
      · have hequal := hlast variadic (List.mem_append_left _ hmem)
        omega
      · exact .of_passTrivia (.bare .lastVariadic
          (hvariadic.append (.bare .noToken (.check hcomma (.of_passTrivia (.nil _))))))
      · rintro ⟨variadic, hmem, hlt⟩
        have hequal := hlast variadic (List.mem_append_left _ hmem)
        omega
  case h_3 => exact ensures_of_none_bind (read_recover ..)

end Grammar

end Squirrel

import Squirrel.Proofs.Grammar.Sound.Expression

/-!
# Statements are read by their productions

With the statements every rule has been followed, so by induction on how many nonterminals may be open at once all of
them read their phrases.
-/

namespace Squirrel

namespace Grammar

open Word Rule

variable {readCall : Nonterminal → View → Option View} (hcalls : SoundCalls readCall) {view : View}

include hcalls

/-! ### Blocks -/

theorem sound_block (hhere : here view.words = .braceOpen) :
    block.Ensures readCall view fun _ after => view.Reads [.part .statement] after := by
  refine ensures_node .block fun start hwords _ => ?_
  refine ensures_bind (ensures_open (hwords ▸ hhere) fun opened hopen => ?_)
  refine ensures_bind (ensures_call fun between hstatements => ?_)
  refine ensures_close fun after hcloses hclose => ?_
  exact hopen.append ((hcalls.blockStatements hstatements hcloses).append hclose)

theorem sound_blockStatements : blockStatements.Ensures readCall view fun _ after =>
    here after.words = .braceClose → view.Reads [.part .blockStatements] after := by
  rw [blockStatements]
  refine ensures_bind (ensures_ending (fun _ => ?_) (ensures_currentIs (fun _ => ?_) fun _ => ?_))
  · exact ensures_pure fun _ => .bare .blockEnd (.nil view)
  · exact ensures_pure fun _ => .bare .blockEnd (.of_passTrivia (.nil _))
  refine ensures_bind (ensures_call fun between hfirst => ensures_call fun after hrest hcloses => ?_)
  -- nothing closes a block that has no words left
  have hwords : view.passTrivia.words ≠ [] := by
    intro hnil
    have hsuffix := (hcalls.ahead hrest).trans (hcalls.ahead hfirst)
    rw [View.words_eq_nil_of_suffix hsuffix hnil] at hcloses
    simp at hcloses
  exact .of_passTrivia (.bare .blockMore
    ((hcalls.statement hfirst hwords).append (hcalls.blockStatements hrest hcloses)))

/-! ### Conditions and loops -/

theorem sound_parenHeader (construct : String) : (parenHeader construct).Ensures readCall view fun _ after =>
    view.Reads [.part .header] after := by
  rw [parenHeader]
  refine ensures_bind (ensures_currentIs (fun hhere => ?_) fun hhere => ?_)
  · refine ensures_bind (ensures_open (view.words_passTrivia ▸ hhere) fun opened hopen => ?_)
    refine ensures_bind (ensures_call fun between hinner => ?_)
    refine ensures_close fun after _ hclose => ?_
    exact .of_passTrivia (.bare .header (hopen.append ((hcalls.expression hinner).append hclose)))
  · exact ensures_of_none_bind (read_expect_eq_none (view.words_passTrivia ▸ hhere))

theorem sound_ifStatement (hsettled : view.Settled) (hhere : here view.words = .kwIf) :
    ifStatement.Ensures readCall view fun _ after => view.Reads [.part .statement] after := by
  refine ensures_node .ifStatement fun start hwords hstart => ?_
  refine ensures_bind (ensures_keyword (hstart hsettled) (hwords ▸ hhere) fun started hkeyword _ => ?_)
  refine ensures_bind (ensures_currentIs (fun hopens => ?_) fun hopens => ?_)
  · refine ensures_then (sound_parenthesized hcalls (started.words_passTrivia ▸ hopens)) fun _ tested htest => ?_
    refine ensures_then (sound_body hcalls _) fun _ between hbody => ?_
    have hstarted := hkeyword.append ((View.Reads.of_passTrivia htest).append hbody)
    refine ensures_bind (ensures_currentIs (fun helse => ?_) fun helse => ?_)
    · refine ensures_mono (ensures_node .elseClause fun start hwords hstart => ?_) fun _ after hclause =>
        hstarted.append (.of_passTrivia (.bare .someElse hclause))
      refine ensures_bind (ensures_keyword (hstart between.settled_passTrivia)
        (hwords ▸ between.words_passTrivia ▸ helse) fun other hother _ => ?_)
      exact ensures_mono (sound_body hcalls _) fun _ after hbody => hother.append hbody
    · exact ensures_pure (hstarted.append (.bare .noElse (.check helse (.of_passTrivia (.nil _)))))
  · exact ensures_of_none_bind (read_expect_eq_none (started.words_passTrivia ▸ hopens))

omit hcalls in
theorem words_ne_nil_of_startsStatement {words : List Word} (hstarts : StartsStatement words) : words ≠ [] := by
  rintro rfl
  simp only [StartsStatement, here_nil] at hstarts
  exact absurd hstarts (by decide)

omit hcalls in
theorem words_ne_nil_of_startsExpression {words : List Word} (hstarts : StartsExpression words) : words ≠ [] := by
  rintro rfl
  simp only [StartsExpression, here_nil] at hstarts
  exact absurd hstarts (by decide)

theorem sound_whileStatement (hsettled : view.Settled) (hhere : here view.words = .kwWhile) :
    whileStatement.Ensures readCall view fun _ after => view.Reads [.part .statement] after := by
  refine ensures_node .whileStatement fun start hwords hstart => ?_
  refine ensures_bind (ensures_keyword (hstart hsettled) (hwords ▸ hhere) fun started hkeyword _ => ?_)
  refine ensures_then (sound_parenHeader hcalls _) fun _ between hheader => ?_
  refine ensures_bind (ensures_startsStatement (fun hstarts => ?_) fun hstarts => ?_)
  · refine ensures_call fun after hbody => ?_
    rw [← between.words_passTrivia] at hstarts
    have hstatement := hcalls.statement hbody (words_ne_nil_of_startsStatement hstarts)
    exact hkeyword.append (hheader.append (.bare .someLoopBody (.of_passTrivia hstatement)))
  · exact ensures_pure (hkeyword.append (hheader.append
      (.bare .noLoopBody (.check hstarts (.of_passTrivia (.nil _))))))

theorem sound_doWhileStatement (hsettled : view.Settled) (hhere : here view.words = .kwDo) :
    doWhileStatement.Ensures readCall view fun _ after => view.Reads [.part .statement] after := by
  refine ensures_node .doWhileStatement fun start hwords hstart => ?_
  refine ensures_bind (ensures_keyword (hstart hsettled) (hwords ▸ hhere) fun started hkeyword _ => ?_)
  refine ensures_then (sound_body hcalls _) fun _ between hbody => ?_
  refine ensures_bind (ensures_expect fun looped hwhile => ?_)
  refine ensures_then (sound_parenHeader hcalls _) fun _ tested hheader => ?_
  refine ensures_bind (ensures_optional fun _ after hend => ensures_pure ?_)
  exact hkeyword.append (hbody.append (hwhile.append (hheader.append hend)))

omit hcalls in
theorem ensures_openHeader {statement : String} {result : Bool → View → Prop}
    (hresult : ∀ after, view.Reads [.word .parenOpen] after → result true after) :
    (openHeader statement).Ensures readCall view result := by
  rw [openHeader]
  refine ensures_bind (ensures_currentIs (fun hhere => ?_) fun hhere => ?_)
  · refine ensures_bind (ensures_open (view.words_passTrivia ▸ hhere) fun opened hopen => ?_)
    exact ensures_pure (hresult opened (.of_passTrivia hopen))
  · exact ensures_of_none_bind (read_expect_eq_none (view.words_passTrivia ▸ hhere))

theorem sound_optionalExpression : optionalExpression.Ensures readCall view fun _ after =>
    view.Reads [.part .optionalExpression] after := by
  rw [optionalExpression]
  refine ensures_bind (ensures_startsExpression (fun _ => ?_) fun hstarts => ?_)
  · exact ensures_call fun after hvalue => .of_passTrivia (.bare .someExpression (hcalls.expression hvalue))
  · exact ensures_pure (.bare .noExpression (.check hstarts (.of_passTrivia (.nil _))))

theorem sound_localBindings : localBindings.Ensures readCall view fun _ after =>
    view.Reads [.part .bindings] after := by
  have hsettled := view.settled_passTrivia
  have hsame := view.words_passTrivia
  rw [localBindings]
  refine ensures_bind (ensures_currentIs (fun hhere => ?_) fun _ => ensures_of_none (read_reportHere ..))
  refine ensures_then (ensures_node .binding fun start hwords hstart => ?_) fun _ between hbinding => ?_
  · refine ensures_bind (ensures_keyword (hstart hsettled) (hwords ▸ hsame ▸ hhere) fun named hname _ => ?_)
    have hvalue (operator : Kind) (hoperator : here named.words = operator)
        (hbinds : isBindingOperator operator = true) :
        (do advance; expressionOrTable : Rule Unit).Ensures readCall named.passTrivia fun _ after =>
          start.Reads [.word .id, .part .bindingValue] after := by
      refine ensures_bind (ensures_wordIn named.settled_passTrivia ?_ fun valued
        (hsign : named.passTrivia.Reads [.wordIn isBindingOperator] valued) => ?_)
      · rwa [named.words_passTrivia, hoperator]
      refine ensures_call fun after hvalue => ?_
      exact hname.append (.of_passTrivia (.bare .someBindingValue (hsign.append (hcalls.expression hvalue))))
    refine ensures_bind (ensures_bind (ensures_currentIs (fun hequals => ?_) fun hequals => ?_))
    · exact ensures_pure (hvalue .equals hequals rfl)
    refine ensures_currentIs (fun harrow => ?_) fun harrow => ?_
    · rw [named.settled_passTrivia]
      exact hvalue .newSlot (named.words_passTrivia ▸ harrow) rfl
    · rw [named.words_passTrivia] at harrow
      rw [named.settled_passTrivia]
      have hnone : isBindingOperator (here named.words) = false := by simp [isBindingOperator, hequals, harrow]
      exact ensures_pure (hname.append (.bare .noBindingValue (.check hnone (.of_passTrivia (.nil _)))))
  refine ensures_bind (ensures_eat (fun second hcomma => ?_) fun hcomma => ?_)
  · refine ensures_call fun after hrest => ?_
    exact .of_passTrivia (.bare .moreBindings (hbinding.append (hcomma.append (hcalls.localBindings hrest))))
  · exact ensures_pure (.of_passTrivia (.bare .lastBinding
      (hbinding.append (.check hcomma (.of_passTrivia (.nil _))))))

theorem sound_headerLocal (hsettled : view.Settled) (hhere : here view.words = .kwLocal) :
    (localDeclaration false).Ensures readCall view fun _ after => view.Reads [.part .headerLocal] after := by
  refine ensures_node .headerLocal fun start hwords hstart => ?_
  refine ensures_bind (ensures_keyword (hstart hsettled) (hwords ▸ hhere) fun started hkeyword _ => ?_)
  refine ensures_bind (ensures_call fun after hbindings => ensures_pure ?_)
  exact hkeyword.append (hcalls.localBindings hbindings)

theorem sound_localStatement (hsettled : view.Settled) (hhere : here view.words = .kwLocal) :
    (localDeclaration true).Ensures readCall view fun _ after => view.Reads [.part .statement] after := by
  refine ensures_node .localStatement fun start hwords hstart => ?_
  refine ensures_bind (ensures_keyword (hstart hsettled) (hwords ▸ hhere) fun started hkeyword _ => ?_)
  refine ensures_bind (ensures_call fun between hbindings => ?_)
  refine ensures_bind (ensures_optional fun _ after hend => ensures_pure ?_)
  exact hkeyword.append ((hcalls.localBindings hbindings).append hend)

theorem sound_forStatement (hsettled : view.Settled) (hhere : here view.words = .kwFor) :
    forStatement.Ensures readCall view fun _ after => view.Reads [.part .statement] after := by
  refine ensures_node .forStatement fun start hwords hstart => ?_
  refine ensures_bind (ensures_keyword (hstart hsettled) (hwords ▸ hhere) fun started hkeyword _ => ?_)
  refine ensures_bind (ensures_openHeader fun opened hopen => ?_)
  -- what follows the first clause, whatever that is
  have hrest (initialized : View) (hinitial : opened.Reads [.part .forInitial] initialized) : (do
      let _ ← expect .semicolon "`;` after `for` initializer"
      optionalExpression
      let _ ← expect .semicolon "`;` after `for` condition"
      optionalExpression
      closeHeader true "`for` header"
      body "`for` body" : Rule Unit).Ensures readCall initialized fun _ after =>
      start.Reads [.word .kwFor, .word .parenOpen, .part .forInitial, .word .semicolon, .part .optionalExpression,
        .word .semicolon, .part .optionalExpression, .word .parenClose, .part .statement] after := by
    refine ensures_bind (ensures_expect fun first hfirst => ?_)
    refine ensures_then (sound_optionalExpression hcalls) fun _ tested htest => ?_
    refine ensures_bind (ensures_expect fun second hsecond => ?_)
    refine ensures_then (sound_optionalExpression hcalls) fun _ stepped hstep => ?_
    refine ensures_bind (ensures_close fun closed _ hclose => ?_)
    refine ensures_mono (sound_body hcalls _) fun _ after hbody => ?_
    have hclauses := hfirst.append (htest.append (hsecond.append (hstep.append (hclose.append hbody))))
    exact hkeyword.append (hopen.append (hinitial.append hclauses))
  refine ensures_bind (ensures_currentIs (fun hlocal => ?_) fun hlocal => ?_)
  · have hwords : here opened.passTrivia.words = .kwLocal := opened.words_passTrivia ▸ hlocal
    refine ensures_then (sound_headerLocal hcalls opened.settled_passTrivia hwords) fun _ initialized hinitial => ?_
    exact hrest initialized (.of_passTrivia (.bare .forLocal hinitial))
  · refine ensures_then (sound_optionalExpression hcalls) fun _ initialized hinitial => ?_
    exact hrest initialized (.bare .forExpression (.check hlocal (.of_passTrivia hinitial)))

theorem sound_foreachStatement (hsettled : view.Settled) (hhere : here view.words = .kwForeach) :
    foreachStatement.Ensures readCall view fun _ after => view.Reads [.part .statement] after := by
  refine ensures_node .foreachStatement fun start hwords hstart => ?_
  refine ensures_bind (ensures_keyword (hstart hsettled) (hwords ▸ hhere) fun started hkeyword _ => ?_)
  refine ensures_bind (ensures_openHeader fun opened hopen => ?_)
  refine ensures_bind (ensures_expect fun named hname => ?_)
  -- what follows the loop variables, one or two
  have hrest (bound : View) (hvariables : opened.Reads [.part .loopVariables] bound) : (do
      if ← expect .kwIn "`in`" then expression
      closeHeader true "`foreach` header"
      body "`foreach` body" : Rule Unit).Ensures readCall bound fun _ after =>
      start.Reads [.word .kwForeach, .word .parenOpen, .part .loopVariables, .word .kwIn, .part (.expression 0 false),
        .word .parenClose, .part .statement] after := by
    refine ensures_bind (ensures_expect fun entered hin => ?_)
    refine ensures_bind (ensures_call fun collected hcollection => ?_)
    refine ensures_bind (ensures_close fun closed _ hclose => ?_)
    refine ensures_mono (sound_body hcalls _) fun _ after hbody => ?_
    have hcollected := hin.append ((hcalls.expression hcollection).append (hclose.append hbody))
    exact hkeyword.append (hopen.append (hvariables.append hcollected))
  refine ensures_bind (ensures_eat (fun between hcomma => ?_) fun _ => ?_)
  · refine ensures_bind (ensures_expect fun bound hvalue => ?_)
    exact hrest bound (.bare .loopIndexValue (hname.append (hcomma.append hvalue)))
  · exact hrest _ (.bare .loopValue (hname.append (.of_passTrivia (.nil _))))

/-! ### Switch -/

theorem sound_caseStatements : caseStatements.Ensures readCall view fun _ after =>
    after.words ≠ [] → view.Reads [.part .caseStatements] after := by
  rw [caseStatements]
  refine ensures_bind (ensures_ending (fun hahead => ensures_pure fun hwords => ?_) (ensures_currentIn ?_))
  · rw [View.words, hahead] at hwords
    exact absurd rfl hwords
  split
  · next hends => exact ensures_pure fun _ => .bare .caseEnd (.check hends (.of_passTrivia (.nil _)))
  refine ensures_bind (ensures_call fun between hfirst => ensures_call fun after hrest hafter => ?_)
  have hwords : view.passTrivia.words ≠ [] := fun hnil =>
    hafter (View.words_eq_nil_of_suffix ((hcalls.ahead hrest).trans (hcalls.ahead hfirst)) hnil)
  exact .of_passTrivia (.bare .caseMore ((hcalls.statement hfirst hwords).append (hcalls.caseStatements hrest hafter)))

theorem sound_caseClause (hsettled : view.Settled) (hhere : here view.words = .kwCase) :
    caseClause.Ensures readCall view fun _ after => after.words ≠ [] → view.Reads [.part .caseClause] after := by
  refine ensures_nodeBefore (· ≠ []) fun start hwords hstart => ?_
  refine ensures_bind (ensures_keyword (hstart hsettled) (hwords ▸ hhere) fun started hkeyword _ => ?_)
  refine ensures_bind (ensures_call fun valued hvalue => ?_)
  refine ensures_bind (ensures_expect fun between hcolon => ?_)
  refine ensures_call fun after hstatements hafter => ?_
  exact ⟨_, .caseClause, hkeyword.append
    ((hcalls.expression hvalue).append (hcolon.append (hcalls.caseStatements hstatements hafter)))⟩

theorem sound_defaultClause (hsettled : view.Settled) (hhere : here view.words = .kwDefault) :
    defaultClause.Ensures readCall view fun _ after => after.words ≠ [] → view.Reads [.part .defaultClause] after := by
  refine ensures_nodeBefore (· ≠ []) fun start hwords hstart => ?_
  refine ensures_bind (ensures_keyword (hstart hsettled) (hwords ▸ hhere) fun started hkeyword _ => ?_)
  refine ensures_bind (ensures_expect fun between hcolon => ?_)
  refine ensures_call fun after hstatements hafter => ?_
  exact ⟨_, .defaultClause, hkeyword.append (hcolon.append (hcalls.caseStatements hstatements hafter))⟩

theorem sound_switchClauses (seenDefault : Bool) : (switchClauses seenDefault).Ensures readCall view fun _ after =>
    here after.words = .braceClose → view.Reads (if seenDefault then [] else [.part .switchClauses]) after := by
  have hsettled := view.settled_passTrivia
  have hsame := view.words_passTrivia
  have hend {after : View} (hreads : view.Reads [] after) :
      view.Reads (if seenDefault then [] else [.part .switchClauses]) after := by
    cases seenDefault with
    | true => exact hreads
    | false => exact .bare .switchEnd hreads
  -- a clause is followed by what closes the switch, so there are words left after it
  have hleft {between after : View} (hsuffix : after.ahead <:+ between.ahead)
      (hcloses : here after.words = .braceClose) : between.words ≠ [] := by
    intro hnil
    rw [View.words_eq_nil_of_suffix hsuffix hnil] at hcloses
    simp at hcloses
  rw [switchClauses]
  refine ensures_bind (ensures_stopped (fun _ => ensures_pure fun _ => hend (.nil view)) fun _ => ?_)
  refine ensures_bind (ensures_current ?_)
  split
  case h_1 => exact ensures_pure fun _ => hend (.of_passTrivia (.nil _))
  case h_2 hhere =>
    cases seenDefault with
    | true => exact ensures_of_none_bind (read_reportHere ..)
    | false =>
      refine ensures_then (sound_caseClause hcalls hsettled (hsame ▸ hhere)) fun _ between hclause => ?_
      refine ensures_call fun after hrest hcloses => ?_
      have hclause := hclause (hleft (hcalls.ahead hrest) hcloses)
      exact .of_passTrivia (.bare .switchCase (hclause.append (hcalls.switchClauses hrest hcloses)))
  case h_3 hhere =>
    cases seenDefault with
    | true => exact ensures_of_none_bind (read_reportHere ..)
    | false =>
      refine ensures_then (sound_defaultClause hcalls hsettled (hsame ▸ hhere)) fun _ between hclause => ?_
      refine ensures_call fun after hrest hcloses => ?_
      have hclause := hclause (hleft (hcalls.ahead hrest) hcloses)
      exact .of_passTrivia (.bare .switchDefault (hclause.append (hcalls.switchClauses hrest hcloses)))
  case h_4 => exact ensures_of_none_bind (read_recover ..)

theorem sound_switchStatement (hsettled : view.Settled) (hhere : here view.words = .kwSwitch) :
    switchStatement.Ensures readCall view fun _ after => view.Reads [.part .statement] after := by
  refine ensures_node .switchStatement fun start hwords hstart => ?_
  refine ensures_bind (ensures_keyword (hstart hsettled) (hwords ▸ hhere) fun started hkeyword _ => ?_)
  refine ensures_then (sound_parenHeader hcalls _) fun _ tested hheader => ?_
  refine ensures_bind (ensures_currentIs (fun hopens => ?_) fun hopens => ?_)
  · refine ensures_bind (ensures_open (tested.words_passTrivia ▸ hopens) fun opened hopen => ?_)
    refine ensures_bind (ensures_call fun between hclauses => ?_)
    refine ensures_close fun after hcloses hclose => ?_
    have hbody := hopen.append ((hcalls.switchClauses hclauses hcloses).append hclose)
    exact hkeyword.append (hheader.append (.of_passTrivia hbody))
  · exact ensures_of_none_bind (read_expect_eq_none (tested.words_passTrivia ▸ hopens))

/-! ### Jumps -/

omit hcalls in
theorem ensures_expectSemicolon {what : String} {result : Unit → View → Prop} (hword : view.afterWord = true)
    (hresult : ∀ after, view.Reads [.word .semicolon] after → result () after) :
    (expectSemicolon what).Ensures readCall view result := by
  rw [expectSemicolon]
  refine ensures_bind (ensures_eat (fun after hend => ensures_pure (hresult after hend)) fun hhere => ?_)
  refine ensures_bind fun previous? between hprevious => ?_
  rw [read_ofStep, Step.read, Option.some.injEq, Prod.mk.injEq] at hprevious
  -- a word has been passed, so there is one to report at
  cases previous? with
  | none =>
    have hnone : ∀ token ∈ view.passTrivia.behind, token.kind.isTrivia = true := by
      simpa using List.find?_eq_none.mp hprevious.1
    rw [View.afterWord] at hword
    cases hbehind : view.behind with
    | nil => simp [hbehind] at hword
    | cons token rest =>
      have hmem : token ∈ view.passTrivia.behind := by simp [View.passTrivia, hbehind]
      simp [hbehind, hnone token hmem] at hword
  | some token => exact ensures_of_none (by simp [read_ofStep, Step.read])

omit hcalls in
theorem sound_jumpStatement {keyword kind : Kind} {name : String} (hsettled : view.Settled)
    (hhere : here view.words = keyword) (hjump : jumpNode? keyword = some kind) :
    (jumpStatement kind name).Ensures readCall view fun _ after => view.Reads [.part .statement] after := by
  refine ensures_node (.jump hjump) fun start hwords hstart => ?_
  refine ensures_bind (ensures_keyword (hstart hsettled) (hwords ▸ hhere) fun started hkeyword hafter => ?_)
  exact ensures_expectSemicolon hafter fun after hend => hkeyword.append hend

theorem sound_returnStatement (hsettled : view.Settled) (hhere : here view.words = .kwReturn) :
    returnStatement.Ensures readCall view fun _ after => view.Reads [.part .statement] after := by
  refine ensures_node .returnStatement fun start hwords hstart => ?_
  refine ensures_bind (ensures_keyword (hstart hsettled) (hwords ▸ hhere) fun started hkeyword _ => ?_)
  refine ensures_bind (ensures_startsExpressionOrTable ?_ fun hnone => ?_)
  · refine ensures_bind (ensures_call fun valued hvalue => ?_)
    refine ensures_bind (ensures_optional fun _ after hend => ensures_pure ?_)
    have hvalue := View.Reads.bare .someReturnValue (.of_passTrivia (hcalls.expression hvalue))
    exact hkeyword.append (hvalue.append hend)
  · refine ensures_bind (ensures_optional fun _ after hend => ensures_pure ?_)
    exact hkeyword.append (View.Reads.append
      (.bare .noReturnValue (.check hnone (.of_passTrivia (.nil _)))) hend)

theorem sound_yieldStatement (hsettled : view.Settled) (hhere : here view.words = .kwYield) :
    yieldStatement.Ensures readCall view fun _ after => view.Reads [.part .statement] after := by
  refine ensures_node .yieldStatement fun start hwords hstart => ?_
  refine ensures_bind (ensures_keyword (hstart hsettled) (hwords ▸ hhere) fun started hkeyword _ => ?_)
  have hnone (hvalue : ¬StartsExpression started.words ∨ AfterBreak started.words) :
      (expectTerminator "`yield`").Ensures readCall started.passTrivia fun _ after =>
        start.Reads [.word .kwYield, .part .yieldValue, .part .terminator] after := by
    refine ensures_mono (sound_expectTerminator _) fun _ after hend => ?_
    exact hkeyword.append (View.Reads.append
      (.bare .noYieldValue (.check hvalue (.of_passTrivia (.nil _)))) hend)
  refine ensures_bind (ensures_bind (ensures_startsExpression (fun hstarts => ?_) fun hstarts => ?_))
  · have hwords : started.passTrivia.words ≠ [] := by
      rw [started.words_passTrivia]
      exact words_ne_nil_of_startsExpression hstarts
    refine ensures_map (ensures_afterLineBreak hwords (fun hbreak => ?_) fun hbreak => ?_)
    · rw [started.words_passTrivia] at hbreak
      rw [started.settled_passTrivia]
      exact hnone (.inr hbreak)
    · rw [started.words_passTrivia] at hbreak
      rw [started.settled_passTrivia]
      refine ensures_bind (ensures_call fun valued hvalue => ?_)
      refine ensures_mono (sound_expectTerminator _) fun _ after hend => ?_
      have hvalue := View.Reads.bare .someYieldValue (.check hbreak (.of_passTrivia (hcalls.expression hvalue)))
      exact hkeyword.append (hvalue.append hend)
  · exact ensures_pure (hnone (.inl hstarts))

theorem sound_throwStatement (hsettled : view.Settled) (hhere : here view.words = .kwThrow) :
    throwStatement.Ensures readCall view fun _ after => view.Reads [.part .statement] after := by
  refine ensures_node .throwStatement fun start hwords hstart => ?_
  refine ensures_bind (ensures_keyword (hstart hsettled) (hwords ▸ hhere) fun started hkeyword _ => ?_)
  refine ensures_bind (ensures_call fun valued hvalue => ?_)
  refine ensures_bind (ensures_optional fun _ after hend => ensures_pure ?_)
  exact hkeyword.append ((hcalls.expression hvalue).append hend)

/-! ### Declarations and errors -/

theorem sound_varStatement (hsettled : view.Settled) (hhere : here view.words = .kwVar) :
    varStatement.Ensures readCall view fun _ after => view.Reads [.part .statement] after := by
  refine ensures_node .varStatement fun start hwords hstart => ?_
  refine ensures_bind (ensures_keyword (hstart hsettled) (hwords ▸ hhere) fun started hkeyword _ => ?_)
  refine ensures_bind (ensures_expect fun named hname => ?_)
  refine ensures_bind (ensures_expect fun between hequals => ?_)
  refine ensures_bind (ensures_call fun valued hvalue => ?_)
  refine ensures_bind (ensures_optional fun _ after hend => ensures_pure ?_)
  exact hkeyword.append (hname.append (hequals.append ((hcalls.expression hvalue).append hend)))

theorem sound_tryStatement (hsettled : view.Settled) (hhere : here view.words = .kwTry) :
    tryStatement.Ensures readCall view fun _ after => view.Reads [.part .statement] after := by
  refine ensures_node .tryStatement fun start hwords hstart => ?_
  refine ensures_bind (ensures_keyword (hstart hsettled) (hwords ▸ hhere) fun started hkeyword _ => ?_)
  refine ensures_then (sound_body hcalls _) fun _ between hbody => ?_
  refine ensures_bind (ensures_currentIs (fun hcatch => ?_) fun hcatch => ?_)
  · refine ensures_mono (ensures_node .catchClause fun start hwords hstart => ?_) fun _ after hclause =>
      hkeyword.append (hbody.append (.of_passTrivia hclause))
    have hstart := hstart between.settled_passTrivia
    have hwords := hwords.trans between.words_passTrivia
    refine ensures_bind (ensures_keyword hstart (hwords ▸ hcatch) fun caught hkeyword _ => ?_)
    refine ensures_bind (ensures_currentIs (fun hopens => ?_) fun hopens => ?_)
    · refine ensures_bind (ensures_open (caught.words_passTrivia ▸ hopens) fun opened hopen => ?_)
      refine ensures_bind (ensures_expect fun named hname => ?_)
      refine ensures_bind (ensures_close fun closed _ hclose => ?_)
      refine ensures_mono (sound_body hcalls _) fun _ after hbody => ?_
      have hbinding := hopen.append (hname.append (hclose.append hbody))
      exact hkeyword.append (.of_passTrivia hbinding)
    · exact ensures_of_none_bind (read_expect_eq_none (caught.words_passTrivia ▸ hopens))
  · exact ensures_of_none_bind (read_expect_eq_none (between.words_passTrivia ▸ hcatch))

theorem sound_expressionStatement : expressionStatement.Ensures readCall view fun _ after =>
    view.Reads [.part .statement] after := by
  refine ensures_node .expressionStatement fun start hwords hstart => ?_
  refine ensures_bind (ensures_call fun between hvalue => ?_)
  refine ensures_bind (ensures_optional fun _ after hend => ensures_pure ?_)
  exact (hcalls.expression hvalue).append hend

/-! ### All statements -/

theorem sound_knownStatement (hsettled : view.Settled) : knownStatement.Ensures readCall view fun _ after =>
    view.Reads [.part .statement] after := by
  rw [knownStatement]
  refine ensures_bind (ensures_current ?_)
  rw [hsettled]
  split
  case h_1 hhere => exact sound_block hcalls hhere
  case h_2 hhere =>
    refine ensures_node .emptyStatement fun start hwords hstart => ?_
    exact ensures_keyword (hstart hsettled) (hwords ▸ hhere) fun after hend _ => hend
  case h_3 hhere => exact sound_ifStatement hcalls hsettled hhere
  case h_4 hhere => exact sound_whileStatement hcalls hsettled hhere
  case h_5 hhere => exact sound_doWhileStatement hcalls hsettled hhere
  case h_6 hhere => exact sound_switchStatement hcalls hsettled hhere
  case h_7 hhere => exact sound_forStatement hcalls hsettled hhere
  case h_8 hhere => exact sound_foreachStatement hcalls hsettled hhere
  case h_9 hhere => exact sound_jumpStatement hsettled hhere rfl
  case h_10 hhere => exact sound_jumpStatement hsettled hhere rfl
  case h_11 hhere => exact sound_returnStatement hcalls hsettled hhere
  case h_12 hhere => exact sound_yieldStatement hcalls hsettled hhere
  case h_13 hhere => exact sound_localStatement hcalls hsettled hhere
  case h_14 hhere => exact sound_varStatement hcalls hsettled hhere
  case h_15 hhere =>
    refine ensures_bind fun second between hnext => ?_
    rw [read_ofStep, Step.read, hsettled, Option.some.injEq, Prod.mk.injEq] at hnext
    obtain ⟨-, rfl⟩ := hnext
    split
    · exact ensures_mono (sound_functionDeclaration hcalls hsettled hhere) fun _ after hfunction =>
        .bare .functionStatement hfunction
    · exact sound_expressionStatement hcalls
  case h_16 hhere =>
    exact ensures_mono (sound_classDeclaration hcalls hsettled hhere) fun _ after hclass =>
      .bare .classStatement hclass
  case h_17 hhere => exact sound_tryStatement hcalls hsettled hhere
  case h_18 hhere => exact sound_throwStatement hcalls hsettled hhere
  case h_19 hhere =>
    exact ensures_mono (sound_constDeclaration hcalls hsettled hhere) fun _ after hconst =>
      .bare .constStatement hconst
  case h_20 hhere =>
    exact ensures_mono (sound_enumDeclaration hcalls hsettled hhere) fun _ after henum =>
      .bare .enumStatement henum
  case h_21 => exact sound_expressionStatement hcalls

omit hcalls in
/-- Nothing is skipped without a report, except where nothing is left. -/
theorem ensures_recoverStatement {result : Unit → View → Prop} (hend : view.ahead = [] → result () view) :
    recoverStatement.Ensures readCall view result := by
  rw [recoverStatement]
  refine ensures_bind (ensures_stopped (fun hahead => ensures_pure (hend hahead)) fun _ => ensures_of_none ?_)
  rw [if_neg Bool.false_ne_true, read_node, read_bind, read_reportHere]
  rfl

theorem sound_statement : statement.Ensures readCall view fun _ after =>
    (view.words ≠ [] → view.Reads [.part .statement] after) ∧ (view.words = [] → view.Reads [] after) := by
  have hsettled := view.settled_passTrivia
  have hsame := view.words_passTrivia
  rw [statement]
  refine ensures_bind (ensures_descend (ensures_bind (ensures_currentIs (fun hhere => ?_) fun _ => ?_)))
  · exact ensures_of_none_bind (read_advanceGarbage (hsame ▸ hhere))
  refine ensures_bind (ensures_startsStatement (fun hstarts => ?_) fun _ => ?_)
  · rw [hsettled]
    rw [hsame] at hstarts
    refine ensures_then (sound_knownStatement hcalls hsettled) fun _ after hreads => ensures_ascend ?_
    exact ⟨fun _ => .of_passTrivia hreads, fun hnil => absurd hnil (words_ne_nil_of_startsStatement hstarts)⟩
  · rw [hsettled]
    refine ensures_bind (ensures_recoverStatement fun hahead => ensures_ascend ?_)
    have hnil : view.words = [] := by
      rw [← hsame]
      exact (View.ahead_eq_nil_iff hsettled).mp hahead
    exact ⟨fun hsome => absurd hnil hsome, fun _ => .of_passTrivia (.nil _)⟩

theorem sound_script : script.Ensures readCall view fun _ after => view.Reads [.part .script] after := by
  rw [script]
  refine ensures_bind (ensures_stopped (fun _ => ensures_pure (.bare .scriptEnd (.nil view))) fun _ => ?_)
  refine ensures_bind (ensures_currentIs (fun _ => ensures_of_none_bind (read_reportHere ..)) fun _ => ?_)
  refine ensures_bind (ensures_call fun between hfirst => ensures_call fun after hrest => ?_)
  have hrest := hcalls.script hrest
  by_cases hwords : view.passTrivia.words = []
  · exact .of_passTrivia ((hcalls.noStatement hfirst hwords).append hrest)
  · exact .of_passTrivia (.bare .scriptMore ((hcalls.statement hfirst hwords).append hrest))

end Grammar

namespace Nonterminal

theorem of_read_succ {bound : Nat} {nonterminal : Nonterminal} {view after : View} {result : Unit → View → Prop}
    (hrule : (Grammar.ruleOf nonterminal).Ensures (Nonterminal.read bound) view result)
    (hread : nonterminal.read (bound + 1) view = some after) : result () after := by
  rw [Nonterminal.read, Option.map_eq_some_iff] at hread
  obtain ⟨⟨⟨⟩, found⟩, hread, hfound⟩ := hread
  exact hfound ▸ hrule () found hread

/-- All readings of nonterminals follow the productions. -/
theorem soundCalls_read (bound : Nat) : SoundCalls (Nonterminal.read bound) := by
  induction bound with
  | zero => constructor <;> intros <;> simp_all [read]
  | succ bound ih =>
    exact {
      ahead := ahead_of_read
      script := fun hread => of_read_succ (Grammar.sound_script ih) hread
      statement := fun hread => (of_read_succ (Grammar.sound_statement ih) hread).1
      noStatement := fun hread => (of_read_succ (Grammar.sound_statement ih) hread).2
      blockStatements := fun hread => of_read_succ (Grammar.sound_blockStatements ih) hread
      caseStatements := fun hread => of_read_succ (Grammar.sound_caseStatements ih) hread
      switchClauses := fun hread => of_read_succ (Grammar.sound_switchClauses ih _) hread
      localBindings := fun hread => of_read_succ (Grammar.sound_localBindings ih) hread
      expression := fun hread => of_read_succ (Grammar.sound_expressionOf ih _ _) hread
      operators := fun hread htidy hplaced hstart hlefts hchain =>
        of_read_succ (Grammar.sound_operators ih htidy hplaced hstart (hlefts ▸ hchain)) hread
      arguments := fun hread => of_read_succ (Grammar.sound_arguments ih) hread
      elements := fun hread => of_read_succ (Grammar.sound_elements ih) hread
      slots := fun hread => of_read_succ (Grammar.sound_slots ih) hread
      variadics := fun hread => (of_read_succ (Grammar.sound_parameterList ih _ _) hread).1
      parameterList := fun hread hcloses => ((of_read_succ (Grammar.sound_parameterList ih _ _) hread).2 hcloses).1 rfl
      noParameters := fun hread hcloses => ((of_read_succ (Grammar.sound_parameterList ih _ _) hread).2 hcloses).2
      path := fun hread => of_read_succ (Grammar.sound_path ih _) hread
      members := fun hread => of_read_succ (Grammar.sound_members ih) hread
      enumEntries := fun hread => of_read_succ (Grammar.sound_enumEntries ih) hread
      attributeList := fun hread => of_read_succ (Grammar.sound_attributeList ih) hread }

end Nonterminal

end Squirrel

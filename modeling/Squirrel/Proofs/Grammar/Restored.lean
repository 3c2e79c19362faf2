import Squirrel.Proofs.Grammar.Balance
import Squirrel.Proofs.Grammar.Progress

/-!
# Productions leave the stacks as they found them

From any state a production ends, unless a check of the machine fails: its nonterminals never nest too deep for the tokens
that are left. If it ends, the stack of open nodes is the one that it was given, the same openers wait, and the parse stands
as deep as before. So a parse that is not cut off closes its last node as the one root, which is a script.
-/

namespace Squirrel

/-! ### Room for every rule -/

/-- A step fails where nothing is left or too many looks have been taken. -/
theorem Step.run_ne_nestedTooDeep {α : Type} (s : Step α) (state : State) : s.run state ≠ .error .nestedTooDeep := by
  intro hrun
  cases s <;> simp only [run, bind, Except.bind, pure, Except.pure, reduceCtorEq] at hrun
  case current | adjacent =>
    split at hrun
    · next hlook =>
      obtain ⟨rfl, -⟩ := State.spendLook_error hlook
      cases hrun
    · cases hrun
  case advance =>
    rw [State.advance] at hrun
    cases hahead : state.ahead <;> simp [hahead] at hrun

/-- No step puts a token back. -/
theorem Step.ahead_of_run {α : Type} {s : Step α} {state after : State} {answer : α}
    (hrun : s.run state = .ok (answer, after)) : after.ahead <:+ state.ahead := by
  have hpass : state.passTrivia.ahead <:+ state.ahead := List.dropWhile_suffix _
  cases s <;> simp only [run, bind, Except.bind, pure, Except.pure, Except.ok.injEq, Prod.mk.injEq] at hrun
  case current | adjacent =>
    split at hrun
    · cases hrun
    · next looked hlook =>
      obtain ⟨-, rfl⟩ := Prod.mk.inj (Except.ok.inj hrun)
      rw [State.spendLook] at hlook
      split at hlook
      · cases hlook
      · exact Except.ok.inj hlook ▸ hpass
  case next | currentSpan | afterLineBreak | numberFollows | placeTrivia => exact hrun.2 ▸ hpass
  case previous | atEnd | stopped | mark | pushOpener | popOpener | report | ascend => exact hrun.2 ▸ List.suffix_rfl
  case advance =>
    split at hrun
    · cases hrun
    · next moved hadvance =>
      obtain ⟨-, rfl⟩ := Prod.mk.inj (Except.ok.inj hrun)
      rw [State.advance] at hadvance
      split at hadvance
      · cases hadvance
      · next token rest hahead =>
        obtain rfl := Except.ok.inj hadvance
        exact hahead ▸ List.suffix_cons token rest
  case reportOnce offset diagnostic =>
    rw [← hrun.2, State.reportOnce]
    split <;> exact List.suffix_rfl
  case descend =>
    have hafter : after = state.descend.2 := (congrArg Prod.snd hrun).symm
    rw [hafter, State.descend]
    split <;> exact List.suffix_rfl

theorem Rule.kept_ahead : Rule.Kept fun state after => after.ahead <:+ state.ahead where
  refl _ := List.suffix_rfl
  trans hfirst hsecond := hsecond.trans hfirst
  step _ _ _ _ hrun := Step.ahead_of_run hrun
  wrap _ _ _ _ hinner := hinner

namespace Rule

variable {α : Type}

/-- Only a call nests too deep. -/
theorem exists_call_of_nestedTooDeep {runCall : Nonterminal → State → Except Fault State} {rule : Rule α} {state : State}
    (hexec : rule.exec runCall state = .error .nestedTooDeep) :
    ∃ nonterminal there, (nonterminal, there) ∈ rule.calls runCall state ∧
      runCall nonterminal there = .error .nestedTooDeep := by
  induction rule generalizing state with
  | done answer => cases hexec
  | step s rest ih =>
    cases hrun : s.run state with
    | error fault =>
      simp only [exec, hrun, Except.error.injEq] at hexec
      exact absurd (hexec ▸ hrun) (s.run_ne_nestedTooDeep state)
    | ok found =>
      simp only [exec, calls, hrun] at hexec ⊢
      exact ih found.1 hexec
  | wrap kind start inner rest ihinner ih =>
    cases hinner : inner.exec runCall { state with placed := state.placed.take (state.placed.length - start) } with
    | error fault =>
      simp only [exec, hinner, Except.error.injEq] at hexec
      obtain ⟨nonterminal, there, hmem, hcall⟩ := ihinner (hexec ▸ hinner)
      exact ⟨nonterminal, there, List.mem_append_left _ hmem, hcall⟩
    | ok found =>
      simp only [exec, calls, hinner] at hexec ⊢
      obtain ⟨nonterminal, there, hmem, hcall⟩ := ih hexec
      exact ⟨nonterminal, there, List.mem_append_right _ hmem, hcall⟩
  | call nonterminal rest ih =>
    cases hcall : runCall nonterminal state with
    | error fault =>
      simp only [exec, hcall, Except.error.injEq] at hexec
      exact ⟨nonterminal, state, List.mem_cons_self, hexec ▸ hcall⟩
    | ok after =>
      simp only [exec, calls, hcall] at hexec ⊢
      obtain ⟨again, there, hmem, hdeep⟩ := ih hexec
      exact ⟨again, there, List.mem_cons_of_mem _ hmem, hdeep⟩

/-- What a rule calls, it calls at the place where it starts or further on. -/
theorem ahead_of_mem_calls {bound : Nat} {rule : Rule α} {state there : State} {nonterminal : Nonterminal}
    (hmem : (nonterminal, there) ∈ rule.calls (Nonterminal.run bound) state) : there.ahead <:+ state.ahead := by
  induction rule generalizing state with
  | done answer => cases hmem
  | step s rest ih =>
    simp only [calls] at hmem
    split at hmem
    · cases hmem
    · next answer after hrun => exact (ih answer hmem).trans (Step.ahead_of_run hrun)
  | wrap kind start inner rest ihinner ih =>
    simp only [calls] at hmem
    obtain hmem | hmem := List.mem_append.mp hmem
    · exact @ihinner { state with placed := state.placed.take (state.placed.length - start) } hmem
    · split at hmem
      · cases hmem
      · next after hinner =>
        have hafter : after.ahead <:+ { state with
          placed := state.placed.take (state.placed.length - start) }.ahead := kept_ahead.exec (kept_ahead.run bound) hinner
        exact (@ih { after with
          placed := .node kind after.placed.reverse :: state.placed.drop (state.placed.length - start) } hmem).trans hafter
  | call found rest ih =>
    simp only [calls] at hmem
    obtain hfirst | hmem := List.mem_cons.mp hmem
    · exact (Prod.mk.inj hfirst).2 ▸ List.suffix_rfl
    · split at hmem
      · cases hmem
      · next after hcall => exact (ih hmem).trans (kept_ahead.run bound found state after hcall)

end Rule

/-- From any state a nonterminal has room for all that it calls. -/
theorem Nonterminal.run_ne_nestedTooDeep {bound : Nat} (nonterminal : Nonterminal) {state : State}
    (hbound : nestingBound state.ahead.length ≤ bound) : nonterminal.run bound state ≠ .error .nestedTooDeep := by
  induction hlength : state.ahead.length using Nat.strong_induction_on generalizing nonterminal bound state with
  | _ length ih =>
    intro hrun
    by_cases hskip : nonterminal = .skipToStatement
    · -- it may start at trivia, but what it calls stands behind the first token
      subst hskip
      obtain ⟨less, rfl⟩ : ∃ less, bound = less + 1 := ⟨bound - 1, by simp only [nestingBound] at hbound; omega⟩
      have hexec : Grammar.skipToStatement.exec (run less) state = .error .nestedTooDeep := by
        have hsame := run_succ less .skipToStatement state
        rw [hrun] at hsame
        exact hsame.symm
      obtain ⟨again, there, hmem, hcall⟩ := Rule.exists_call_of_nestedTooDeep hexec
      have hlt := Grammar.length_lt_of_calls_skipToStatement hmem
      refine ih there.ahead.length (hlength ▸ hlt) again ?_ rfl hcall
      simp only [nestingBound] at hbound ⊢
      omega
    · have hkeeps := keeps bound (state.called_of_ne fun hskips => absurd hskips hskip)
      rw [Keeps, hrun] at hkeeps
      have hdeep : bound ≤ nonterminal.weight state.standing := hkeeps
      have hslack := state.standing.slack_le
      have hrank := nonterminal.rank_le
      have hraw : state.standing.raw = state.ahead.length := rfl
      simp only [nestingBound, weight, hraw] at hbound hdeep
      omega

theorem Rule.exec_ne_nestedTooDeep {α : Type} {bound : Nat} (rule : Rule α) {state : State}
    (hbound : nestingBound state.ahead.length ≤ bound) :
    rule.exec (Nonterminal.run bound) state ≠ .error .nestedTooDeep := by
  intro hexec
  obtain ⟨nonterminal, there, hmem, hcall⟩ := exists_call_of_nestedTooDeep hexec
  have hle := (ahead_of_mem_calls hmem).length_le
  refine nonterminal.run_ne_nestedTooDeep ?_ hcall
  simp only [nestingBound] at hbound ⊢
  omega

/-! ### Productions -/

namespace Grammar

/-- The rule of a whole script. -/
def wholeScript : Rule Unit := node .script do
  call .script
  .ofStep .placeTrivia

/-- The productions of the grammar. -/
inductive Construct where
  | wholeScript
  | nonterminal (nonterminal : Nonterminal)
  | advanceAsError
  | advanceGarbage
  | recover (kind : DiagnosticKind) (detail : String) (recovery : TokenSet)
  | recoverStatement
  | expectTerminator (after : String)
  | expectSemicolon (after : String)
  | knownStatement
  | body (owner : String)
  | expressionStatement
  | block
  | parenHeader (construct : String)
  | ifStatement
  | whileStatement
  | doWhileStatement
  | switchStatement
  | caseClause
  | defaultClause
  | forStatement
  | foreachStatement
  | jumpStatement (kind : Kind) (keyword : String)
  | returnStatement
  | yieldStatement
  | localDeclaration (isStatement : Bool)
  | varStatement
  | tryStatement
  | throwStatement
  | functionDeclaration
  | parameters
  | checkVariadics (count : Nat) (variadics : List (Nat × Span))
  | classDeclaration
  | member
  | constDeclaration
  | enumDeclaration
  | attributes
  | literal (kind : Kind)
  | array
  | table
  | slot
  | constValue
  | operand (tableAllowed : Bool)
  | negativeLiteral
  | parenthesized
  | callArguments
  | lambda
  | anonymousFunction
  | keywordOperand (kind : Kind)

namespace Construct

def rule : Construct → Rule Unit
  | wholeScript => Grammar.wholeScript
  | nonterminal found => call found
  | advanceAsError => Grammar.advanceAsError
  | advanceGarbage => Grammar.advanceGarbage
  | recover kind detail recovery => Grammar.recover kind detail recovery
  | recoverStatement => Grammar.recoverStatement
  | expectTerminator after => Grammar.expectTerminator after
  | expectSemicolon after => Grammar.expectSemicolon after
  | knownStatement => Grammar.knownStatement
  | body owner => Grammar.body owner
  | expressionStatement => Grammar.expressionStatement
  | block => Grammar.block
  | parenHeader construct => Grammar.parenHeader construct
  | ifStatement => Grammar.ifStatement
  | whileStatement => Grammar.whileStatement
  | doWhileStatement => Grammar.doWhileStatement
  | switchStatement => Grammar.switchStatement
  | caseClause => Grammar.caseClause
  | defaultClause => Grammar.defaultClause
  | forStatement => Grammar.forStatement
  | foreachStatement => Grammar.foreachStatement
  | jumpStatement kind keyword => Grammar.jumpStatement kind keyword
  | returnStatement => Grammar.returnStatement
  | yieldStatement => Grammar.yieldStatement
  | localDeclaration isStatement => Grammar.localDeclaration isStatement
  | varStatement => Grammar.varStatement
  | tryStatement => Grammar.tryStatement
  | throwStatement => Grammar.throwStatement
  | functionDeclaration => Grammar.functionDeclaration
  | parameters => Grammar.parameters
  | checkVariadics count variadics => Grammar.checkVariadics count variadics
  | classDeclaration => Grammar.classDeclaration
  | member => Grammar.member
  | constDeclaration => Grammar.constDeclaration
  | enumDeclaration => Grammar.enumDeclaration
  | attributes => Grammar.attributes
  | literal kind => do let _ ← Grammar.literal kind
  | array => Grammar.array
  | table => Grammar.table
  | slot => Grammar.slot
  | constValue => Grammar.constValue
  | operand tableAllowed => do let _ ← Grammar.operand tableAllowed
  | negativeLiteral => Grammar.negativeLiteral
  | parenthesized => Grammar.parenthesized
  | callArguments => Grammar.callArguments
  | lambda => Grammar.lambda
  | anonymousFunction => Grammar.anonymousFunction
  | keywordOperand kind => Grammar.keywordOperand kind

/-- The routine of a production, which opens and closes its nodes itself. -/
def routine : Construct → Routine Unit
  | wholeScript => Build.wholeScript
  | nonterminal found => call found
  | advanceAsError => Build.advanceAsError
  | advanceGarbage => Build.advanceGarbage
  | recover kind detail recovery => Build.recover kind detail recovery
  | recoverStatement => Build.recoverStatement
  | expectTerminator after => Grammar.expectTerminator after
  | expectSemicolon after => Grammar.expectSemicolon after
  | knownStatement => Build.knownStatement
  | body owner => Grammar.body owner
  | expressionStatement => Build.expressionStatement
  | block => Build.block
  | parenHeader construct => Grammar.parenHeader construct
  | ifStatement => Build.ifStatement
  | whileStatement => Build.whileStatement
  | doWhileStatement => Build.doWhileStatement
  | switchStatement => Build.switchStatement
  | caseClause => Build.caseClause
  | defaultClause => Build.defaultClause
  | forStatement => Build.forStatement
  | foreachStatement => Build.foreachStatement
  | jumpStatement kind keyword => Build.jumpStatement kind keyword
  | returnStatement => Build.returnStatement
  | yieldStatement => Build.yieldStatement
  | localDeclaration isStatement => Build.localDeclaration isStatement
  | varStatement => Build.varStatement
  | tryStatement => Build.tryStatement
  | throwStatement => Build.throwStatement
  | functionDeclaration => Build.functionDeclaration
  | parameters => Build.parameters
  | checkVariadics count variadics => Grammar.checkVariadics count variadics
  | classDeclaration => Build.classDeclaration
  | member => Build.member
  | constDeclaration => Build.constDeclaration
  | enumDeclaration => Build.enumDeclaration
  | attributes => Build.attributes
  | literal kind => do let _ ← Build.literal kind
  | array => Build.array
  | table => Build.table
  | slot => Build.slot
  | constValue => Build.constValue
  | operand tableAllowed => do let _ ← Build.operand tableAllowed
  | negativeLiteral => Build.negativeLiteral
  | parenthesized => Build.parenthesized
  | callArguments => Build.callArguments
  | lambda => Build.lambda
  | anonymousFunction => Build.anonymousFunction
  | keywordOperand kind => Build.keywordOperand kind

/-- The mark that a production is handed and goes back to. -/
def mark? : Construct → Option Nat
  | nonterminal found => found.mark?
  | _ => none

end Construct

@[simp] theorem flat_wholeScript : wholeScript.flat = Build.wholeScript := by simp [wholeScript, Build.wholeScript]

/-- What the routine of a production opens and closes is what its rule has in nodes. -/
theorem Construct.flat_rule (construct : Construct) : construct.rule.flat = construct.routine := by
  cases construct <;> simp [rule, routine]

@[grind .] theorem steady_wholeScript {strict : Prop} : wholeScript.Steady strict :=
  steady_node (Rule.steady_bind (steady_call rfl) fun _ => steady_ofStep rfl)

/-- Every production closes what it opens. -/
theorem Construct.balanced (construct : Construct) {strict : Prop} {sure : Nat}
    (hstands : strict → ∀ start ∈ construct.mark?, start ≤ sure) :
    construct.rule.Balanced strict ⟨.none, sure⟩ fun _ after => after.toDebt = .none := by
  have hsteady {rule : Rule Unit} (hrule : rule.Steady strict) :
      rule.Balanced strict ⟨.none, sure⟩ fun _ after => after.toDebt = .none :=
    (hrule .none sure).mono fun _ _ hafter => hafter.1
  cases construct with
  | nonterminal found => exact ⟨hstands, rfl⟩
  | _ => exact hsteady (by grind [rule])

end Grammar

/-- What a production may come to on a site, where the machine comes to `ran`. If it ends, the nodes that were open still
are, the openers that waited still do, and the parse stands as deep as before. If it does not, a check of the machine has
failed, but not the one for the depth of calls; or the production goes back to a mark behind all that the open node holds. -/
def Site.Restored (site : Site) (mark? : Option Nat) (ran : Except Fault (Unit × State)) :
    Except BuildError (Unit × Site) → Prop
  | .ok (_, after) => ran = .ok ((), after.state) ∧ after.nodes = site.nodes ∧
      after.state.openers = site.state.openers ∧ after.state.depth = site.state.depth
  | .error (.fault fault) => ran = .error fault ∧ fault ≠ .nestedTooDeep
  | .error .staleMark => ∃ start ∈ mark?, site.state.placed.length < start
  | .error _ => False

theorem Grammar.Construct.restored_build (construct : Construct) (site : Site) (more : Nat) :
    let bound := nestingBound site.state.ahead.length + more
    site.Restored construct.mark? (construct.rule.exec (Nonterminal.run bound) site.state)
      (construct.routine.build (Nonterminal.build bound) site) := by
  intro bound
  -- only where the mark stands is the production asked to go back to marks that stand
  have hbalanced : construct.rule.Balanced (∀ start ∈ construct.mark?, start ≤ site.state.placed.length)
      ⟨.none, site.state.placed.length⟩ fun _ after => after.toDebt = .none := construct.balanced id
  have hdelivers := hbalanced.build_flat (Nonterminal.restores_build isBalanced bound) (Balance.holds_entry (Nat.le_refl _))
  have hbuilt := construct.rule.builtAs_flat (Nonterminal.builtAs_build bound) site
  rw [construct.flat_rule] at hdelivers hbuilt
  have hdeep : construct.rule.exec (Nonterminal.run bound) site.state ≠ .error .nestedTooDeep :=
    construct.rule.exec_ne_nestedTooDeep (Nat.le_add_right _ more)
  cases hresult : construct.routine.build (Nonterminal.build bound) site with
  | ok found =>
    rw [hresult] at hdelivers hbuilt
    obtain ⟨last, hnone, hlast⟩ := hdelivers
    exact ⟨hbuilt.1, hbuilt.2, hlast.restored hnone⟩
  | error error =>
    rw [hresult] at hdelivers hbuilt
    cases error with
    | fault fault => exact ⟨hbuilt, fun hfault => hdeep (hfault ▸ hbuilt)⟩
    | staleMark =>
      by_contra hstale
      refine hdelivers (fun start hstart => Nat.not_lt.mp fun hbehind => ?_) rfl
      exact hstale ⟨start, hstart, hbehind⟩
    | limit | noneOpen | malformed => exact hbuilt.elim

/-! ### Whole parses -/

namespace BuiltAs

variable {α : Type} {nodes : List OpenNode} {built : Except BuildError (α × Site)}

theorem of_ok {answer : α} {after : State} (hbuilt : BuiltAs nodes (.ok (answer, after)) built)
    (hmark : built ≠ .error .staleMark) : built = .ok (answer, ⟨after, nodes⟩) := by
  cases built with
  | ok found =>
    obtain ⟨hran, rfl⟩ := hbuilt
    obtain ⟨rfl, rfl⟩ := Prod.mk.inj (Except.ok.inj hran)
    rfl
  | error error =>
    cases error with
    | fault fault => cases hbuilt
    | staleMark => exact absurd rfl hmark
    | limit | noneOpen | malformed => exact hbuilt.elim

theorem of_error {fault : Fault} (hbuilt : BuiltAs nodes (.error fault) built) (hmark : built ≠ .error .staleMark) :
    built = .error (.fault fault) := by
  cases built with
  | ok found => cases hbuilt.1
  | error error =>
    cases error with
    | fault found =>
      obtain rfl : fault = found := Except.error.inj hbuilt
      rfl
    | staleMark => exact absurd rfl hmark
    | limit | noneOpen | malformed => exact hbuilt.elim

end BuiltAs

/-- A whole script is what its statements place, and the trivia behind them. -/
theorem Grammar.exec_wholeScript (runCall : Nonterminal → State → Except Fault State) (limits : Limits)
    (tokens : List Token) (sourceLength : Nat) :
    wholeScript.exec runCall (.initial limits tokens sourceLength)
      = (runCall .script (.initial limits tokens sourceLength)).map fun after =>
          let last := after.passTrivia.placePending
          ((), { last with placed := [.node .script last.placed.reverse] }) := by
  have hnode : wholeScript.exec runCall (.initial limits tokens sourceLength)
      = (Rule.call .script (.ofStep .placeTrivia)).exec runCall (.initial limits tokens sourceLength) >>= fun stop =>
          .ok ((), { stop.2 with placed := [.node .script stop.2.placed.reverse] }) :=
    Rule.exec_wrap_eq_bind .script 0 _ _ _
  rw [hnode, Rule.exec_call_eq_bind]
  cases runCall .script (.initial limits tokens sourceLength) <;> rfl

/-- On an empty stack a whole script is one node. -/
theorem Grammar.build_wholeScript (bound : Nat) (limits : Limits) (tokens : List Token) (sourceLength : Nat) :
    Build.wholeScript.build (Nonterminal.build bound) ⟨.initial limits tokens sourceLength, []⟩
      = match Nonterminal.run bound .script (.initial limits tokens sourceLength) with
        | .error fault => .error (.fault fault)
        | .ok after =>
          let last := after.passTrivia.placePending
          .ok ((), ⟨{ last with placed := [.node .script last.placed.reverse] }, []⟩) := by
  let site : Site := ⟨.initial limits tokens sourceLength, []⟩
  have hsteady : wholeScript.Steady True := steady_wholeScript
  have hdelivers := (hsteady .none 0).build_flat (Nonterminal.restores_build isBalanced bound)
    (Balance.holds_entry (Nat.zero_le site.state.placed.length))
  rw [flat_wholeScript] at hdelivers
  have hmark : Build.wholeScript.build (Nonterminal.build bound) site ≠ .error .staleMark := fun hstale => by
    rw [hstale] at hdelivers
    exact hdelivers trivial rfl
  have hbuilt := wholeScript.builtAs_flat (Nonterminal.builtAs_build bound) site
  rw [flat_wholeScript, exec_wholeScript] at hbuilt
  cases hrun : Nonterminal.run bound .script (.initial limits tokens sourceLength) with
  | error fault =>
    rw [hrun] at hbuilt
    exact hbuilt.of_error hmark
  | ok after =>
    rw [hrun] at hbuilt
    exact hbuilt.of_ok hmark

theorem buildTokens_of_parseTokens (limits : Limits) (sourceLength : Nat) (lexed : Lexed) :
    match parseTokens limits sourceLength lexed with
    | .ok parsed => buildTokens limits sourceLength lexed = .ok parsed.root ∧
        ∃ children, parsed.root = .node .script children
    | .error (.limit exceeded) => buildTokens limits sourceLength lexed = .error (.limit exceeded)
    | .error (.fault fault) => buildTokens limits sourceLength lexed = .error (.fault fault) := by
  rw [parseTokens, buildTokens, Grammar.build_wholeScript]
  cases Nonterminal.run (nestingBound lexed.tokens.length) .script (.initial limits lexed.tokens sourceLength) with
  | error fault => rfl
  | ok after =>
    cases hexceeded : after.exceeded? with
    | some exceeded =>
      have hpassed : after.passTrivia.exceeded? = some exceeded := hexceeded
      simp [hexceeded, hpassed, State.placePending]
    | none =>
      have hpassed : after.passTrivia.exceeded? = none := hexceeded
      simp [hexceeded, hpassed, Site.script?, State.placePending]

/-- Every production, from any state and with any nodes open, comes to its end unless a check fails, and restores the
nodes, the openers and the depth that it found. A whole parse that is not cut off closes its last node as the one root, which
is a script. -/
theorem Script.constructs_balanced :
    (∀ (construct : Grammar.Construct) (site : Site) (more : Nat),
      let bound := nestingBound site.state.ahead.length + more
      site.Restored construct.mark? (construct.rule.exec (Nonterminal.run bound) site.state)
        (construct.routine.build (Nonterminal.build bound) site)) ∧
    (∀ (limits : Limits) (sourceLength : Nat) (lexed : Lexed),
      match parseTokens limits sourceLength lexed with
      | .ok parsed => buildTokens limits sourceLength lexed = .ok parsed.root ∧
          ∃ children, parsed.root = .node .script children
      | .error (.limit exceeded) => buildTokens limits sourceLength lexed = .error (.limit exceeded)
      | .error (.fault fault) => buildTokens limits sourceLength lexed = .error (.fault fault)) :=
  ⟨Grammar.Construct.restored_build, buildTokens_of_parseTokens⟩

-- a `for` whose header is never opened closes none, so that the brace of the block around it still waits
example : (Grammar.Construct.forStatement.routine.build (Nonterminal.build 48)
      ⟨{ State.initial .unbounded [⟨.kwFor, 1, "for"⟩] 4 with openers := [⟨.braceOpen, ⟨0, 1⟩⟩] }, [⟨.block, []⟩]⟩).toOption.map
        (fun found => (found.2.nodes.length, found.2.state.openers)) = some (1, [⟨.braceOpen, ⟨0, 1⟩⟩]) := by
  decide +kernel

end Squirrel

import Squirrel.Proofs.Diagnostic.Sorted
import Squirrel.Proofs.Grammar.Front
import Squirrel.Proofs.Token.Suffix
import Squirrel.Proofs.View.Row

/-!
# Skipping to the next statement

A run of tokens that no statement starts or ends with costs one diagnostic: the parser skips it up to the semicolon behind
it, which ends up as an empty statement. From there on it does what it does to the text behind the semicolon alone.
-/

namespace Squirrel

/-! ### Words ahead -/

/-- Some blanks and comments are ahead, then a word, then the rest. -/
structure State.HasAhead (state : State) (trivia : List Token) (word : Token) (rest : List Token) : Prop where
  ahead : state.ahead = trivia ++ word :: rest
  trivia : ∀ token ∈ trivia, token.kind.isTrivia = true
  word : word.kind.isTrivia = false

namespace State

/-- The state at a word, behind the blanks and comments in front of it. -/
def atWord (state : State) (trivia : List Token) (word : Token) (rest : List Token) : State :=
  { state with
    behind := trivia.reverse ++ state.behind
    ahead := word :: rest
    pending := trivia.reverse ++ state.pending }

theorem atWord_nil {state : State} {word : Token} {rest : List Token} (hahead : state.ahead = word :: rest) :
    state.atWord [] word rest = state := by
  rw [atWord, ← hahead]
  rfl

/-- The state behind a token without limits. -/
def pastToken (state : State) (token : Token) (rest : List Token) : State :=
  { state with
    behind := token :: state.behind
    ahead := rest
    pending := []
    placed := leafOf token :: (state.pending.map leafOf ++ state.placed)
    looks := lookLimit }

variable {state : State} {trivia rest : List Token} {word : Token}

theorem passTrivia_of_hasAhead (hahead : state.HasAhead trivia word rest) :
    state.passTrivia = state.atWord trivia word rest := by
  have htake : (word :: rest).takeWhile (·.kind.isTrivia) = [] := by simp [hahead.word]
  have hdrop : (word :: rest).dropWhile (·.kind.isTrivia) = word :: rest := by simp [hahead.word]
  rw [passTrivia, atWord, hahead.ahead, List.takeWhile_append_of_pos hahead.trivia,
    List.dropWhile_append_of_pos hahead.trivia, htake, hdrop, List.append_nil]

end State

/-- A blank, a comment or a token that no statement starts or ends with. -/
def Token.IsJunk (token : Token) : Prop :=
  token.kind.isTrivia = false → TokenSet.statementSync.contains token.kind = false

theorem Token.IsJunk.ne_garbage {token : Token} (hjunk : token.IsJunk) : token.kind ≠ .garbage := by
  intro hgarbage
  have hsync := hjunk (by rw [hgarbage]; rfl)
  rw [hgarbage] at hsync
  exact absurd hsync (by decide)

/-- Tokens are all blanks and comments, or there is a first word among them. -/
theorem Token.exists_word (tokens : List Token) :
    (∀ token ∈ tokens, token.kind.isTrivia = true) ∨ ∃ trivia word more, tokens = trivia ++ word :: more ∧
      (∀ token ∈ trivia, token.kind.isTrivia = true) ∧ word.kind.isTrivia = false := by
  cases hfind : tokens.find? (!·.kind.isTrivia) with
  | none => exact .inl (by simpa using hfind)
  | some word =>
    obtain ⟨hword, trivia, more, htokens, htrivia⟩ := List.find?_eq_some_iff_append.mp hfind
    exact .inr ⟨trivia, word, more, htokens, by simpa using htrivia, by simpa using hword⟩

namespace Grammar

open Rule

variable {runCall : Nonterminal → State → Except Fault State} {state : State} {trivia rest : List Token} {word : Token}

/-! ### Steps at a word -/

theorem exec_ofStep {α : Type} (step : Step α) : (ofStep step).exec runCall state = step.run state := by
  rw [ofStep, exec]
  cases step.run state <;> rfl

/-- The rest of a rule goes on where its first part has come to. -/
theorem exec_bind_of_ok {α β : Type} {rule : Rule α} {next : α → Rule β} {answer : α} {after : State}
    (hrule : rule.exec runCall state = .ok (answer, after)) :
    (rule >>= next).exec runCall state = (next answer).exec runCall after := by
  rw [exec_bind, hrule]

theorem run_of_exec {bound : Nat} {nonterminal : Nonterminal} {after : State}
    (hexec : (ruleOf nonterminal).exec (Nonterminal.run bound) state = .ok ((), after)) :
    nonterminal.run (bound + 1) state = .ok after := by
  rw [Nonterminal.run, hexec]

theorem exec_call {nonterminal : Nonterminal} {after : State} (hcall : runCall nonterminal state = .ok after) :
    (call nonterminal).exec runCall state = .ok ((), after) := by
  rw [call, exec, hcall]
  rfl

theorem exec_current {left : Nat} (hahead : state.HasAhead trivia word rest) (hlooks : state.looks = left + 1) :
    current.exec runCall state = .ok (word.kind, { state.atWord trivia word rest with looks := left }) := by
  rw [current, exec_ofStep, Step.run, State.passTrivia_of_hasAhead hahead, State.spendLook]
  simp only [State.atWord, hlooks]
  rfl

theorem exec_currentIs {left : Nat} (hahead : state.HasAhead trivia word rest) (hlooks : state.looks = left + 1)
    (kind : Kind) :
    (currentIs kind).exec runCall state = .ok (word.kind == kind, { state.atWord trivia word rest with looks := left }) := by
  rw [currentIs, exec_bind, exec_current hahead hlooks]
  rfl

theorem exec_currentIn {left : Nat} (hahead : state.HasAhead trivia word rest) (hlooks : state.looks = left + 1)
    (set : TokenSet) : (currentIn set).exec runCall state
      = .ok (set.contains word.kind, { state.atWord trivia word rest with looks := left }) := by
  rw [currentIn, exec_bind, exec_current hahead hlooks]
  rfl

theorem exec_stopped (hahead : state.ahead ≠ []) (hwithin : state.exceeded? = none) :
    stopped.exec runCall state = .ok (false, state) := by
  rw [stopped, exec_ofStep, Step.run, State.stopped, State.atEnd, List.isEmpty_eq_false_iff.mpr hahead, hwithin]
  rfl

theorem exec_advance {token : Token} (hahead : state.ahead = token :: rest) (hsteps : state.stepsLeft? = none) :
    advance.exec runCall state = .ok ((), state.pastToken token rest) := by
  have hspend : state.spendStep = state := by rw [State.spendStep, hsteps]
  rw [advance, exec_ofStep, Step.run, State.advance, hahead]
  simp only [hspend]
  rfl

/-- A node around what its inner rule places. -/
theorem exec_node {kind : Kind} {inner : Rule Unit} {after : State}
    (hinner : inner.exec runCall { state.placePending with placed := [] } = .ok ((), after)) :
    (node kind inner).exec runCall state
      = .ok ((), { after with placed := .node kind after.placed.reverse :: state.placePending.placed }) := by
  have hmark : (ofStep .mark).exec runCall state = .ok (state.placePending.placed.length, state.placePending) := by
    rw [exec_ofStep]
    rfl
  rw [node, exec_bind_of_ok hmark]
  simp only [nodeFrom, exec, Nat.sub_self, List.take_zero, List.drop_zero, hinner]

theorem exec_reportHere {kind : DiagnosticKind} {detail : Option String} (hahead : state.HasAhead [] word rest)
    (hfresh : state.lastReport? ≠ some word.start) :
    (reportHere kind detail).exec runCall state = .ok ((), { state with
      reports := reportAt word.span false kind detail :: state.reports
      lastReport? := some word.start }) := by
  have hword : state.passTrivia = state := by
    rw [State.passTrivia_of_hasAhead hahead, State.atWord_nil hahead.ahead]
  have hspan : currentSpan.exec runCall state = .ok (word.span, state) := by
    rw [currentSpan, exec_ofStep, Step.run, hword, State.spanHere, show state.ahead = word :: rest from hahead.ahead]
  have hend : atEnd.exec runCall state = .ok (false, state) := by
    rw [atEnd, exec_ofStep, Step.run, State.atEnd, show state.ahead = word :: rest from hahead.ahead]
    rfl
  rw [reportHere, exec_bind_of_ok hspan, exec_bind_of_ok hend, exec_ofStep, Step.run, State.reportOnce,
    if_neg (by exact hfresh)]
  rfl

/-! ### Skipping -/

/-- Skipping from a token on ends at the semicolon behind the junk. It keeps all that the parser remembers. -/
theorem run_skipToStatement {bound : Nat} {state : State} {token semicolon : Token} {junk rest : List Token}
    (hahead : state.ahead = token :: (junk ++ semicolon :: rest)) (hsteps : state.stepsLeft? = none)
    (hwithin : state.exceeded? = none) (hjunk : ∀ token ∈ junk, token.IsJunk) (hend : semicolon.kind = .semicolon)
    (hbound : junk.length < bound) :
    ∃ behind pending placed, Nonterminal.skipToStatement.run bound state = .ok { state with
        behind, ahead := semicolon :: rest, pending, placed, looks := State.lookLimit - 1 } ∧
      ∀ token ∈ pending, token.kind.isTrivia = true := by
  induction bound generalizing state token junk with
  | zero => exact absurd hbound (Nat.not_lt_zero _)
  | succ bound ih =>
    have hword : semicolon.kind.isTrivia = false := by rw [hend]; rfl
    let moved := state.pastToken token (junk ++ semicolon :: rest)
    have hstopped : stopped.exec (Nonterminal.run bound) moved = .ok (false, moved) :=
      exec_stopped (List.append_ne_nil_of_right_ne_nil _ (List.cons_ne_nil _ _)) hwithin
    have hstart : skipToStatement.exec (Nonterminal.run bound) state
        = (currentIn .statementSync >>= fun sync => if sync = true then pure () else call .skipToStatement).exec
          (Nonterminal.run bound) moved := by
      rw [skipToStatement, exec_bind_of_ok (exec_advance hahead hsteps), exec_bind_of_ok hstopped]
      rfl
    obtain htrivia | ⟨trivia, word, more, rfl, htrivia, hnext⟩ := Token.exists_word junk
    · have hhere : moved.HasAhead junk semicolon rest := ⟨rfl, htrivia, hword⟩
      have hrun : Nonterminal.skipToStatement.run (bound + 1) state
          = .ok { moved.atWord junk semicolon rest with looks := State.lookLimit - 1 } := by
        apply run_of_exec
        rw [ruleOf, hstart, exec_bind_of_ok (exec_currentIn hhere rfl .statementSync), hend]
        rfl
      exact ⟨_, _, _, hrun, fun token hmem => htrivia token (by simpa [State.atWord, moved, State.pastToken] using hmem)⟩
    · have hhere : moved.HasAhead trivia word (more ++ semicolon :: rest) :=
        ⟨by simp [moved, State.pastToken], htrivia, hnext⟩
      have hskip : TokenSet.statementSync.contains word.kind = false :=
        hjunk word (List.mem_append_right _ List.mem_cons_self) hnext
      obtain ⟨behind, pending, placed, hrun, hpending⟩ :=
        @ih { moved.atWord trivia word (more ++ semicolon :: rest) with looks := State.lookLimit - 1 } word more rfl hsteps
          hwithin (fun token hmem => hjunk token (List.mem_append_right _ (List.mem_cons_of_mem _ hmem)))
          (by simp at hbound; omega)
      refine ⟨behind, pending, placed, run_of_exec ?_, hpending⟩
      rw [ruleOf, hstart, exec_bind_of_ok (exec_currentIn hhere rfl .statementSync), hskip]
      exact exec_call hrun

/-! ### Statements -/

/-- Without a limit on nesting a statement is one level down. -/
theorem exec_descend (hdepth : state.depthLimit? = none) : (ofStep .descend).exec runCall state
    = .ok (true, { state with depth := state.depth + 1, looks := State.lookLimit }) := by
  rw [exec_ofStep, Step.run, State.descend, hdepth]
  rfl

/-- What no statement starts or ends with is not garbage and starts no statement. -/
theorem startsNothing {kind : Kind} (hjunk : TokenSet.statementSync.contains kind = false) :
    (kind == .garbage) = false ∧ TokenSet.statementFirst.contains kind = false ∧ (kind == .braceClose) = false := by
  have hall : ∀ kind ∈ Kind.all, TokenSet.statementSync.contains kind = false →
      (kind == .garbage) = false ∧ TokenSet.statementFirst.contains kind = false ∧ (kind == .braceClose) = false := by
    decide +kernel
  exact hall kind (Lexeme.mem_all kind) hjunk

/-- A run of junk up to a semicolon ends up under an error node and costs one report. -/
theorem exec_recoverStatement {bound : Nat} {junk : List Token} {first semicolon : Token}
    (hahead : state.HasAhead [] first (junk ++ semicolon :: rest)) (hsteps : state.stepsLeft? = none)
    (hwithin : state.exceeded? = none) (hfresh : state.lastReport? ≠ some first.start)
    (hjunk : ∀ token ∈ junk, token.IsJunk) (hend : semicolon.kind = .semicolon) (hbound : junk.length < bound) :
    ∃ behind pending children, recoverStatement.exec (Nonterminal.run bound) state = .ok ((), { state with
        behind
        ahead := semicolon :: rest
        pending
        placed := .node .error children :: (state.pending.map State.leafOf ++ state.placed)
        reports := .report .expectedStatement first.span none :: state.reports
        lastReport? := some first.start
        looks := State.lookLimit - 1 }) ∧ ∀ token ∈ pending, token.kind.isTrivia = true := by
  let inside : State := { state.placePending with placed := [] }
  have hinside : inside.HasAhead [] first (junk ++ semicolon :: rest) := ⟨hahead.ahead, hahead.trivia, hahead.word⟩
  have hreport : (reportHere .expectedStatement none).exec (Nonterminal.run bound) inside = _ :=
    exec_reportHere hinside hfresh
  obtain ⟨behind, pending, placed, hskip, hpending⟩ :=
    @run_skipToStatement bound { inside with
      reports := reportAt first.span false .expectedStatement none :: state.reports
      lastReport? := some first.start } first semicolon junk rest hahead.ahead hsteps hwithin hjunk hend hbound
  refine ⟨behind, pending, placed.reverse, ?_, hpending⟩
  have hstopped : stopped.exec (Nonterminal.run bound) state = .ok (false, state) :=
    exec_stopped (by rw [hahead.ahead]; exact List.cons_ne_nil _ _) hwithin
  have hinner : (reportHere .expectedStatement none >>= fun _ => call .skipToStatement).exec (Nonterminal.run bound) inside
      = _ := (exec_bind_of_ok hreport).trans (exec_call hskip)
  rw [recoverStatement, exec_bind_of_ok hstopped]
  exact exec_node hinner

theorem run_statement_junk {bound : Nat} {junk rest : List Token} {first semicolon : Token}
    (hahead : state.HasAhead [] first (junk ++ semicolon :: rest)) (hsteps : state.stepsLeft? = none)
    (hdepth : state.depthLimit? = none) (hwithin : state.exceeded? = none) (hfresh : state.lastReport? ≠ some first.start)
    (hfirst : TokenSet.statementSync.contains first.kind = false) (hjunk : ∀ token ∈ junk, token.IsJunk)
    (hend : semicolon.kind = .semicolon) (hbound : junk.length < bound) :
    ∃ behind pending children, Nonterminal.statement.run (bound + 1) state = .ok { state with
        behind
        ahead := semicolon :: rest
        pending
        placed := .node .error children :: (state.pending.map State.leafOf ++ state.placed)
        reports := .report .expectedStatement first.span none :: state.reports
        lastReport? := some first.start
        looks := State.lookLimit } ∧ ∀ token ∈ pending, token.kind.isTrivia = true := by
  obtain ⟨hgarbage, hstarts, -⟩ := startsNothing hfirst
  let down : State := { state with depth := state.depth + 1, looks := State.lookLimit }
  let here : State := { down.atWord [] first (junk ++ semicolon :: rest) with looks := State.lookLimit - 1 }
  have hdown : down.HasAhead [] first (junk ++ semicolon :: rest) := ⟨hahead.ahead, hahead.trivia, hahead.word⟩
  have hhere : here.HasAhead [] first (junk ++ semicolon :: rest) := ⟨rfl, nofun, hahead.word⟩
  have hnot : (currentIs .garbage).exec (Nonterminal.run bound) down = .ok (false, here) := by
    rw [exec_currentIs hdown rfl, hgarbage]
    rfl
  have hnone : startsStatement.exec (Nonterminal.run bound) here
      = .ok (false, { here with looks := State.lookLimit - 2 }) := by
    rw [startsStatement, exec_currentIn hhere rfl, hstarts]
    rfl
  obtain ⟨behind, pending, children, hrecover, hpending⟩ :=
    @exec_recoverStatement { here with looks := State.lookLimit - 2 } rest bound junk first semicolon
      ⟨rfl, nofun, hahead.word⟩ hsteps hwithin hfresh hjunk hend hbound
  refine ⟨behind, pending, children, run_of_exec ?_, hpending⟩
  rw [ruleOf, statement, exec_bind_of_ok (exec_descend hdepth)]
  show (currentIs .garbage >>= _).exec _ down = _
  rw [exec_bind_of_ok hnot]
  show (startsStatement >>= _).exec _ here = _
  rw [exec_bind_of_ok hnone]
  show (recoverStatement >>= _).exec _ _ = _
  rw [exec_bind_of_ok hrecover, exec_ofStep]
  rfl

/-- A statement that is read one level down. -/
theorem run_statement_known {bound : Nat} {after : State} (hahead : state.HasAhead [] word rest)
    (hdepth : state.depthLimit? = none) (hgarbage : (word.kind == .garbage) = false)
    (hstarts : TokenSet.statementFirst.contains word.kind = true)
    (hknown : knownStatement.exec (Nonterminal.run bound)
      { state with depth := state.depth + 1, looks := State.lookLimit - 2 } = .ok ((), after)) :
    Nonterminal.statement.run (bound + 1) state = .ok after.ascend := by
  let down (looks : Nat) : State := { state with depth := state.depth + 1, looks }
  have hhere (looks : Nat) : (down looks).HasAhead [] word rest := ⟨hahead.ahead, nofun, hahead.word⟩
  have hnot : (currentIs .garbage).exec (Nonterminal.run bound) (down State.lookLimit)
      = .ok (false, down (State.lookLimit - 1)) := by
    rw [exec_currentIs (hhere State.lookLimit) rfl, State.atWord_nil (hhere _).ahead, hgarbage]
    rfl
  have hfirst : startsStatement.exec (Nonterminal.run bound) (down (State.lookLimit - 1))
      = .ok (true, down (State.lookLimit - 2)) := by
    rw [startsStatement, exec_currentIn (hhere (State.lookLimit - 1)) rfl, State.atWord_nil (hhere _).ahead, hstarts]
    rfl
  apply run_of_exec
  rw [ruleOf, statement, exec_bind_of_ok (exec_descend hdepth)]
  show (currentIs .garbage >>= _).exec _ (down State.lookLimit) = _
  rw [exec_bind_of_ok hnot]
  show (startsStatement >>= _).exec _ _ = _
  rw [exec_bind_of_ok hfirst]
  show (knownStatement >>= _).exec _ _ = _
  rw [exec_bind_of_ok hknown, exec_ofStep]
  rfl

/-- A semicolon is an empty statement. -/
theorem run_statement_semicolon {bound : Nat} {semicolon : Token} (hahead : state.ahead = semicolon :: rest)
    (hsteps : state.stepsLeft? = none) (hdepth : state.depthLimit? = none) (hend : semicolon.kind = .semicolon) :
    Nonterminal.statement.run (bound + 1) state = .ok { state with
      behind := semicolon :: state.behind
      ahead := rest
      pending := []
      placed := .node .emptyStatement [State.leafOf semicolon] :: (state.pending.map State.leafOf ++ state.placed)
      looks := State.lookLimit } := by
  have hword : semicolon.kind.isTrivia = false := by rw [hend]; rfl
  let down (looks : Nat) : State := { state with depth := state.depth + 1, looks }
  have hhere (looks : Nat) : (down looks).HasAhead [] semicolon rest := ⟨hahead, nofun, hword⟩
  have hkind : current.exec (Nonterminal.run bound) (down (State.lookLimit - 2))
      = .ok (.semicolon, down (State.lookLimit - 3)) := by
    rw [exec_current (hhere (State.lookLimit - 2)) rfl, State.atWord_nil (hhere _).ahead, hend]
    rfl
  have hinner : advance.exec (Nonterminal.run bound)
      { (down (State.lookLimit - 3)).placePending with placed := [] } = _ := exec_advance hahead hsteps
  have hempty : knownStatement.exec (Nonterminal.run bound) (down (State.lookLimit - 2)) = _ :=
    (exec_bind_of_ok hkind).trans (exec_node hinner)
  exact run_statement_known ⟨hahead, nofun, hword⟩ hdepth (by rw [hend]; rfl) (by rw [hend]; rfl) hempty

/-- A script goes on behind a statement, unless it is at a closing brace. -/
theorem run_script {bound left : Nat} {after : State} (hahead : state.HasAhead trivia word rest)
    (hwithin : state.exceeded? = none) (hlooks : state.looks = left + 1) (hbrace : (word.kind == .braceClose) = false)
    (hstatement : Nonterminal.statement.run bound { state.atWord trivia word rest with looks := left } = .ok after) :
    Nonterminal.script.run (bound + 1) state = Nonterminal.script.run bound after := by
  have hstopped : stopped.exec (Nonterminal.run bound) state = .ok (false, state) :=
    exec_stopped (by rw [hahead.ahead]; exact List.append_ne_nil_of_right_ne_nil _ (List.cons_ne_nil _ _)) hwithin
  have hnot : (currentIs .braceClose).exec (Nonterminal.run bound) state
      = .ok (false, { state.atWord trivia word rest with looks := left }) := by
    rw [exec_currentIs hahead hlooks, hbrace]
  have hexec : script.exec (Nonterminal.run bound) state = (call .script).exec (Nonterminal.run bound) after := by
    rw [script, exec_bind_of_ok hstopped]
    show (currentIs .braceClose >>= _).exec _ state = _
    rw [exec_bind_of_ok hnot]
    exact exec_bind_of_ok (exec_call hstatement)
  rw [Nonterminal.run, ruleOf, hexec, call, exec]
  cases Nonterminal.script.run bound after <;> rfl

end Grammar

/-! ### Junk at the start of a source -/

/-- A script that starts with junk and a semicolon goes on with what is behind them as if that were a script of its own,
with an empty statement placed and one report made. -/
theorem Grammar.run_script_junk {bound : Nat} {trivia junk rest : List Token} {first semicolon : Token} {length : Nat}
    (htrivia : ∀ token ∈ trivia, token.kind.isTrivia = true) (hword : first.kind.isTrivia = false)
    (hfirst : TokenSet.statementSync.contains first.kind = false) (hjunk : ∀ token ∈ junk, token.IsJunk)
    (hend : semicolon.kind = .semicolon) (hbound : junk.length + 1 < bound) :
    ∃ behind placed, Nonterminal.script.run (bound + 2)
        (State.initial .unbounded (trivia ++ first :: (junk ++ semicolon :: rest)) length)
      = Nonterminal.script.run bound { State.initial .unbounded rest length with
          behind := semicolon :: behind
          placed := .node .emptyStatement [State.leafOf semicolon] :: placed
          reports := [.report .expectedStatement first.span none]
          lastReport? := some first.start } ∧
      ∀ tree ∈ placed, tree.isStatement = false := by
  obtain ⟨bound, rfl⟩ := Nat.exists_eq_add_of_lt hbound
  have hsemicolon : semicolon.kind.isTrivia = false := by rw [hend]; rfl
  let here : State := { State.atWord (.initial .unbounded (trivia ++ first :: (junk ++ semicolon :: rest)) length) trivia first
      (junk ++ semicolon :: rest) with looks := State.lookLimit - 1 }
  have hstart : State.HasAhead (.initial .unbounded (trivia ++ first :: (junk ++ semicolon :: rest)) length) trivia first
      (junk ++ semicolon :: rest) := ⟨rfl, htrivia, hword⟩
  have hhere : here.HasAhead [] first (junk ++ semicolon :: rest) := ⟨rfl, nofun, hword⟩
  obtain ⟨behind, pending, children, hskip, hpending⟩ :=
    run_statement_junk hhere rfl rfl rfl nofun hfirst hjunk hend (show junk.length < junk.length + 1 + bound + 1 by omega)
  let skipped (looks : Nat) : State := { here with
    behind
    ahead := semicolon :: rest
    pending
    placed := .node .error children :: (here.pending.map State.leafOf ++ here.placed)
    reports := [.report .expectedStatement first.span none]
    lastReport? := some first.start
    looks }
  have hskipped : (skipped State.lookLimit).HasAhead [] semicolon rest := ⟨rfl, nofun, hsemicolon⟩
  have hbrace : (semicolon.kind == .braceClose) = false := by rw [hend]; rfl
  have hempty : Nonterminal.statement.run (junk.length + 1 + bound + 1) (skipped (State.lookLimit - 1)) = _ :=
    run_statement_semicolon rfl rfl rfl hend
  refine ⟨behind, pending.map State.leafOf ++ .node .error children :: here.pending.map State.leafOf, ?_, ?_⟩
  · rw [run_script hstart rfl rfl (startsNothing hfirst).2.2 hskip]
    refine (run_script hskipped rfl rfl hbrace hempty).trans ?_
    simp [skipped, here, State.atWord, State.initial]
  · intro tree hmem
    obtain hmem | hmem := List.mem_append.mp hmem
    · obtain ⟨token, -, rfl⟩ := List.mem_map.mp hmem
      rfl
    obtain rfl | hmem := List.mem_cons.mp hmem
    · rfl
    · obtain ⟨token, -, rfl⟩ := List.mem_map.mp hmem
      rfl

/-- Tokens up to a last one, with at most one report made, as the front of a text. -/
def Front.ofLast (last : Token) (behind : List Token) (placed : List Tree) (report? : Option Diagnostic)
    (hbefore : ∀ report ∈ report?, report.span.start < last.stop) (hword : last.kind.isTrivia = false) : Front where
  length := last.stop
  behind := last :: behind
  placed := placed
  reports := report?.toList
  lastReport? := report?.map (·.span.start)
  lastReport_lt := by simpa using hbefore
  takeWhile_behind := by simp [hword]

theorem Diagnostic.sorted_map_shift (offset : Nat) (diagnostics : List Diagnostic) :
    sorted (diagnostics.map (Diagnostic.shift offset)) = (sorted diagnostics).map (Diagnostic.shift offset) := by
  refine (List.map_mergeSort fun left _ right _ => ?_).symm
  simp only [Diagnostic.span_shift, Span.start_shift, Nat.add_le_add_iff_right]

theorem Tree.map_tree_statements (tree : Tree) :
    tree.statements.map Child.tree = tree.children.filter Tree.isStatement := by
  rw [← map_tree_filter, statements, nodes, List.filter_filter]
  congr 2
  funext child
  exact Bool.and_comm ..

/-- There is room for the statements in front of a text besides the room for the text. -/
theorem nestingBound_eq {source text : String} {before rest : List Token} {last : Token}
    (htokens : (Lexed.ofSource source).tokens = before ++ last :: rest)
    (hrest : rest.map Token.leaf = (Lexed.ofSource text).tokens.map Token.leaf) :
    nestingBound (Lexed.ofSource source).tokens.length
      = nestingBound (Lexed.ofSource text).tokens.length + 16 * before.length + 16 := by
  have hlength := congrArg List.length hrest
  simp only [List.length_map] at hlength
  simp only [htokens, nestingBound, List.length_append, List.length_cons, hlength]
  omega

/-- A source whose parse comes to a text behind a front, with at most one report made, has the trees of the text behind
those of the front, and the diagnostics of the text moved on behind the report. -/
theorem Script.parse_front {source text : String} {before rest behind : List Token} {last : Token} {placed : List Tree}
    {report? : Option Diagnostic} {hbefore : ∀ report ∈ report?, report.span.start < last.stop}
    {hword : last.kind.isTrivia = false} {bound : Nat} {script : Script}
    (htokens : (Lexed.ofSource source).tokens = before ++ last :: rest)
    (hrest : rest.map Token.leaf = (Lexed.ofSource text).tokens.map Token.leaf)
    (hsound : ∀ passed ∈ before ++ [last], passed.kind ≠ .garbage)
    (hrun : Nonterminal.script.run (nestingBound (Lexed.ofSource text).tokens.length + 16 * before.length + 16)
        (.initial .unbounded (before ++ last :: (Lexed.ofSource text).tokens.map (Token.shift last.stop))
          (text.utf8ByteSize + last.stop))
      = Nonterminal.script.run bound ((Front.ofLast last behind placed report? hbefore hword).state
          (.initial .unbounded (Lexed.ofSource text).tokens text.utf8ByteSize)))
    (hbound : nestingBound (Lexed.ofSource text).tokens.length ≤ bound)
    (hparse : Script.parse text .unbounded = .ok script) :
    ∃ whole, Script.parse source .unbounded = .ok whole ∧
      whole.root = .node .script (placed.reverse ++ script.root.children) ∧
      whole.diagnostics = report?.toList ++ script.diagnostics.map (Diagnostic.shift last.stop) := by
  have hcount := nestingBound_eq htokens hrest
  obtain ⟨rfl, hdiagnostics, hsize⟩ := Lexed.ofSource_of_suffix htokens hrest hsound
  rw [← htokens, ← hsize, ← hcount] at hrun
  rw [Script.parse] at hparse
  split at hparse
  · cases hparse
  · next parsed hparsed =>
    obtain rfl := Except.ok.inj hparse
    obtain ⟨reports, hsorted, hwhole⟩ := parseTokens_front hrun hbound hparsed
    refine ⟨⟨source, _, _, _⟩, by rw [Script.parse, hwhole]; rfl, rfl, ?_⟩
    show Diagnostic.sorted ((Lexed.ofSource source).diagnostics ++
      (report?.toList.reverse ++ reports.map (Diagnostic.shift last.stop))) = _
    rw [hdiagnostics, hsorted, ← Diagnostic.sorted_map_shift, List.map_append]
    cases report? with
    | none => rfl
    | some report =>
      refine Diagnostic.sorted_of_least fun other hmem => ?_
      obtain hmem | hmem := List.mem_append.mp hmem
      all_goals
        obtain ⟨diagnostic, -, rfl⟩ := List.mem_map.mp hmem
        exact Nat.lt_of_lt_of_le (hbefore report rfl) (Nat.le_add_left _ _)

/-- Junk up to a semicolon costs one diagnostic and no statement of the text behind it. -/
theorem Script.parse_junk {source text : String} {junk rest : List Token} {first semicolon : Token} {script : Script}
    (htokens : (Lexed.ofSource source).tokens = junk ++ semicolon :: rest) (hjunk : ∀ token ∈ junk, token.IsJunk)
    (hfirst : junk.find? (!·.kind.isTrivia) = some first) (hend : semicolon.kind = .semicolon)
    (hrest : rest.map Token.leaf = (Lexed.ofSource text).tokens.map Token.leaf)
    (hparse : Script.parse text .unbounded = .ok script) :
    ∃ whole before, Script.parse source .unbounded = .ok whole ∧
      whole.root = .node .script (before ++ .node .emptyStatement [.token semicolon.leaf] :: script.root.children) ∧
      whole.root.statements.map Child.tree
        = .node .emptyStatement [.token semicolon.leaf] :: script.root.statements.map Child.tree ∧
      whole.diagnostics
        = .report .expectedStatement first.span none :: script.diagnostics.map (Diagnostic.shift semicolon.stop) := by
  have hword : semicolon.kind.isTrivia = false := by rw [hend]; rfl
  obtain ⟨hstarts, trivia, more, rfl, htrivia⟩ := List.find?_eq_some_iff_append.mp hfirst
  have hstarts : first.kind.isTrivia = false := by simpa using hstarts
  have hfirst : TokenSet.statementSync.contains first.kind = false :=
    hjunk first (List.mem_append_right _ List.mem_cons_self) hstarts
  have hmore : ∀ token ∈ more, token.IsJunk := fun token hmem =>
    hjunk token (List.mem_append_right _ (List.mem_cons_of_mem _ hmem))
  -- nothing is wrong with the tokens in front of the text, so the lexer reports about the text only
  have hsound : ∀ token ∈ (trivia ++ first :: more) ++ [semicolon], token.kind ≠ .garbage := by
    intro token hmem
    obtain hmem | hmem := List.mem_append.mp hmem
    · exact (hjunk token hmem).ne_garbage
    · rw [List.mem_singleton.mp hmem, hend]
      decide
  have hbefore : first.start < semicolon.stop := by
    have htile := (Lexed.tile_ofSource source).1
    rw [htokens] at htile
    obtain ⟨middle, hleft, hstart, hpos, -⟩ := htile.split
    obtain ⟨-, hlt, hle⟩ := hleft.bounds.2 first (List.mem_append_right _ List.mem_cons_self)
    omega
  let bound := nestingBound (Lexed.ofSource text).tokens.length + 16 * (trivia ++ first :: more).length + 14
  obtain ⟨behind, placed, hrun, hplaced⟩ := @Grammar.run_script_junk bound trivia more
    ((Lexed.ofSource text).tokens.map (Token.shift semicolon.stop)) first semicolon (text.utf8ByteSize + semicolon.stop)
    (by simpa using htrivia) hstarts hfirst hmore hend (by simp [bound]; omega)
  let report : Diagnostic := .report .expectedStatement first.span none
  let front := Front.ofLast semicolon behind (.node .emptyStatement [State.leafOf semicolon] :: placed) (some report)
    (by rintro _ ⟨rfl⟩; exact hbefore) hword
  have hfront : Nonterminal.script.run (bound + 2) (.initial .unbounded
      ((trivia ++ first :: more) ++ semicolon :: (Lexed.ofSource text).tokens.map (Token.shift semicolon.stop))
        (text.utf8ByteSize + semicolon.stop)) = Nonterminal.script.run bound
          (front.state (.initial .unbounded (Lexed.ofSource text).tokens text.utf8ByteSize)) := by
    rw [List.append_assoc, List.cons_append]
    exact hrun
  obtain ⟨whole, hwhole, hroot, hdiagnostics⟩ :=
    Script.parse_front htokens hrest hsound hfront (by simp only [bound]; omega) hparse
  rw [List.reverse_cons, List.append_assoc, List.singleton_append] at hroot
  refine ⟨whole, placed.reverse, hwhole, hroot, ?_, hdiagnostics⟩
  have hnone : placed.reverse.filter Tree.isStatement = [] := by
    rw [List.filter_eq_nil_iff]
    intro tree hmem
    rw [hplaced tree (List.mem_reverse.mp hmem)]
    exact Bool.false_ne_true
  rw [hroot, Tree.map_tree_statements, Tree.map_tree_statements, Tree.children, List.filter_append, hnone, List.nil_append,
    List.filter_cons_of_pos rfl]
  rfl

/-- A closing parenthesis in front of a semicolon, and behind it another one, which is an error of its own. -/
theorem Script.parse_junk_parenClose :
    (Lexed.ofSource ") ; )").tokens
        = [⟨.parenClose, 0, ")"⟩, ⟨.whitespace, 1, " "⟩] ++ ⟨.semicolon, 2, ";"⟩ :: [⟨.whitespace, 3, " "⟩, ⟨.parenClose, 4, ")"⟩] ∧
      ∃ script whole before, Script.parse " )" .unbounded = .ok script ∧ Script.parse ") ; )" .unbounded = .ok whole ∧
        whole.root = .node .script (before ++ .node .emptyStatement [.token ⟨.semicolon, ";"⟩] :: script.root.children) ∧
        whole.root.statements.map Child.tree
          = .node .emptyStatement [.token ⟨.semicolon, ";"⟩] :: script.root.statements.map Child.tree ∧
        whole.diagnostics
          = .report .expectedStatement ⟨0, 1⟩ none :: script.diagnostics.map (Diagnostic.shift 3) := by
  have htokens : (Lexed.ofSource ") ; )").tokens = [⟨.parenClose, 0, ")"⟩, ⟨.whitespace, 1, " "⟩] ++
      ⟨.semicolon, 2, ";"⟩ :: [⟨.whitespace, 3, " "⟩, ⟨.parenClose, 4, ")"⟩] := by
    rw [← Lexed.computed_eq]
    decide +kernel
  have hrest : [⟨.whitespace, 3, " "⟩, ⟨.parenClose, 4, ")"⟩].map Token.leaf
      = (Lexed.ofSource " )").tokens.map Token.leaf := by
    rw [← Lexed.computed_eq]
    decide +kernel
  have hjunk : ∀ token ∈ [(⟨.parenClose, 0, ")"⟩ : Token), ⟨.whitespace, 1, " "⟩], token.IsJunk := by
    intro token hmem
    obtain rfl | hmem := List.mem_cons.mp hmem
    · exact fun _ => by decide
    · rw [List.mem_singleton.mp hmem]
      exact nofun
  have houtcome : (Script.outcome? " )" .unbounded).any (fun _ => true) = true := by decide +kernel
  obtain ⟨script, -, hparse, -⟩ := Script.exists_of_outcome houtcome
  obtain ⟨whole, before, hwhole⟩ := Script.parse_junk htokens hjunk rfl rfl hrest hparse
  exact ⟨htokens, script, whole, before, hparse, hwhole⟩

end Squirrel

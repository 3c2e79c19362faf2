import Squirrel.Proofs.Grammar.Resync

/-!
# Putting in a missing semicolon

The report about a jump without its semicolon carries a fix that puts one behind the keyword. At the start of a script the
fix does what it says: the report is gone, and the text behind the jump is parsed as before, one byte further on.
-/

namespace Squirrel

/-- The report about a keyword whose semicolon is missing. -/
def Token.missingSemicolon (keyword : Token) (what : String) : Diagnostic :=
  (Diagnostic.report .expectedTerminator keyword.span (some ("`;` after " ++ what))).withFix
    ⟨"insert `;`", keyword.text ++ ";"⟩

@[simp] theorem Token.start_span_missingSemicolon (keyword : Token) (what : String) :
    (keyword.missingSemicolon what).span.start = keyword.start := rfl

/-- The kinds of the statements that need their semicolon, and how reports call them. -/
def Grammar.jumpName? : Kind → Option (Kind × String)
  | .kwBreak => some (.breakStatement, "`break`")
  | .kwContinue => some (.continueStatement, "`continue`")
  | _ => none

namespace Grammar

open Rule

variable {runCall : Nonterminal → State → Except Fault State} {state : State} {trivia rest : List Token}
  {keyword semicolon word : Token} {node : Kind} {what : String}

/-! ### Jumps -/

/-- A jump in front of another word is reported, and ends there. -/
theorem exec_jumpStatement_missing (hahead : state.ahead = keyword :: (trivia ++ word :: rest))
    (htrivia : ∀ token ∈ trivia, token.kind.isTrivia = true) (hkeyword : keyword.kind.isTrivia = false)
    (hword : word.kind.isTrivia = false) (hother : (word.kind == .semicolon) = false) (hsteps : state.stepsLeft? = none)
    (hfresh : state.lastReport? ≠ some keyword.start) :
    (jumpStatement node what).exec runCall state = .ok ((), { state with
      behind := trivia.reverse ++ keyword :: state.behind
      ahead := word :: rest
      pending := trivia.reverse
      placed := .node node [State.leafOf keyword] :: (state.pending.map State.leafOf ++ state.placed)
      reports := keyword.missingSemicolon what :: state.reports
      lastReport? := some keyword.start
      looks := State.lookLimit - 1 }) := by
  let inside : State := { state.placePending with placed := [] }
  let moved := inside.pastToken keyword (trivia ++ word :: rest)
  have hadvance : advance.exec runCall inside = .ok ((), moved) := exec_advance hahead hsteps
  have hhere : moved.HasAhead trivia word rest := ⟨rfl, htrivia, hword⟩
  let looked : State := { moved.atWord trivia word rest with looks := State.lookLimit - 1 }
  have heat : (eat .semicolon).exec runCall moved = .ok (false, looked) := by
    rw [eat, exec_bind_of_ok (exec_currentIs hhere rfl .semicolon), hother]
    rfl
  have hprevious : (ofStep .previous).exec runCall looked = .ok (some keyword, looked) := by
    have hpassed : (trivia.reverse ++ keyword :: state.behind).find? (!·.kind.isTrivia) = some keyword := by
      have hnone : trivia.reverse.find? (!·.kind.isTrivia) = none := by simpa using htrivia
      rw [List.find?_append, hnone, Option.none_or, List.find?_cons_of_pos (by rw [hkeyword]; rfl)]
    rw [exec_ofStep]
    exact congrArg (fun found => Except.ok (found, looked)) hpassed
  have hinner : (advance >>= fun _ => expectSemicolon what).exec runCall inside = .ok ((), { looked with
      reports := keyword.missingSemicolon what :: looked.reports
      lastReport? := some keyword.start }) := by
    rw [exec_bind_of_ok hadvance, expectSemicolon, exec_bind_of_ok heat]
    show (ofStep .previous >>= _).exec runCall looked = _
    rw [exec_bind_of_ok hprevious]
    show (ofStep (.reportOnce keyword.start (keyword.missingSemicolon what))).exec runCall looked = _
    rw [exec_ofStep, Step.run, State.reportOnce, if_neg (by exact hfresh)]
  rw [jumpStatement, exec_node hinner]
  simp [looked, moved, inside, State.atWord, State.pastToken, State.placePending]

/-- A jump with its semicolon is not reported. -/
theorem exec_jumpStatement (hahead : state.ahead = keyword :: semicolon :: rest) (hend : semicolon.kind = .semicolon)
    (hsteps : state.stepsLeft? = none) : (jumpStatement node what).exec runCall state = .ok ((), { state with
      behind := semicolon :: keyword :: state.behind
      ahead := rest
      pending := []
      placed := .node node [State.leafOf keyword, State.leafOf semicolon] ::
        (state.pending.map State.leafOf ++ state.placed)
      looks := State.lookLimit }) := by
  have hword : semicolon.kind.isTrivia = false := by rw [hend]; rfl
  let inside : State := { state.placePending with placed := [] }
  let moved := inside.pastToken keyword (semicolon :: rest)
  let looked : State := { moved with looks := State.lookLimit - 1 }
  have hadvance : advance.exec runCall inside = .ok ((), moved) := exec_advance hahead hsteps
  have hhere : moved.HasAhead [] semicolon rest := ⟨rfl, nofun, hword⟩
  have hmove : advance.exec runCall looked = .ok ((), looked.pastToken semicolon rest) := exec_advance rfl hsteps
  have heat : (eat .semicolon).exec runCall moved = .ok (true, looked.pastToken semicolon rest) := by
    rw [eat, exec_bind_of_ok (exec_currentIs hhere rfl .semicolon), State.atWord_nil hhere.ahead, hend]
    show (advance >>= fun _ => pure true).exec runCall looked = _
    rw [exec_bind_of_ok hmove]
    rfl
  have hinner : (advance >>= fun _ => expectSemicolon what).exec runCall inside
      = .ok ((), looked.pastToken semicolon rest) := by
    rw [exec_bind_of_ok hadvance, expectSemicolon, exec_bind_of_ok heat]
    rfl
  exact exec_node hinner

/-! ### Statements -/

/-- The keyword of a jump is a word that starts a statement and closes nothing. -/
theorem starts_of_jumpName? (hjump : jumpName? keyword.kind = some (node, what)) :
    keyword.kind.isTrivia = false ∧ (keyword.kind == .garbage) = false ∧ (keyword.kind == .braceClose) = false ∧
      TokenSet.statementFirst.contains keyword.kind = true := by
  unfold jumpName? at hjump
  split at hjump
  case h_3 => cases hjump
  all_goals
    next hkeyword =>
    rw [hkeyword]
    decide

/-- The keyword of a jump leads to the statement of the jump. -/
theorem run_statement_jump {bound : Nat} {after : State} (hjump : jumpName? keyword.kind = some (node, what))
    (hahead : state.HasAhead [] keyword rest) (hdepth : state.depthLimit? = none)
    (hexec : (jumpStatement node what).exec (Nonterminal.run bound)
      { state with depth := state.depth + 1, looks := State.lookLimit - 3 } = .ok ((), after)) :
    Nonterminal.statement.run (bound + 1) state = .ok after.ascend := by
  let down : State := { state with depth := state.depth + 1, looks := State.lookLimit - 2 }
  have hhere : down.HasAhead [] keyword rest := ⟨hahead.ahead, nofun, hahead.word⟩
  have hkind : current.exec (Nonterminal.run bound) down
      = .ok (keyword.kind, { down with looks := State.lookLimit - 3 }) := by
    rw [exec_current hhere rfl, State.atWord_nil hhere.ahead]
    rfl
  have hknown : knownStatement.exec (Nonterminal.run bound) down = .ok ((), after) := by
    rw [knownStatement, exec_bind_of_ok hkind]
    unfold jumpName? at hjump
    split at hjump
    case h_3 => cases hjump
    all_goals
      next hkeyword =>
      obtain ⟨rfl, rfl⟩ := Prod.mk.inj (Option.some.inj hjump)
      rw [hkeyword]
      exact hexec
  obtain ⟨-, hgarbage, -, hstarts⟩ := starts_of_jumpName? hjump
  exact run_statement_known hahead hdepth hgarbage hstarts hknown

/-- Blanks in front of the first statement may as well have been passed already. -/
theorem run_script_atWord {left : Nat} (bound : Nat) (hahead : state.HasAhead trivia word rest)
    (hwithin : state.exceeded? = none) (hlooks : state.looks = left + 1) :
    Nonterminal.script.run bound (state.atWord trivia word rest) = Nonterminal.script.run bound state := by
  cases bound with
  | zero => rfl
  | succ bound =>
    have hhere : (state.atWord trivia word rest).HasAhead [] word rest := ⟨rfl, nofun, hahead.word⟩
    have hsame : script.exec (Nonterminal.run bound) (state.atWord trivia word rest)
        = script.exec (Nonterminal.run bound) state := by
      have hnonempty : state.ahead ≠ [] := by
        rw [hahead.ahead]
        exact List.append_ne_nil_of_right_ne_nil _ (List.cons_ne_nil _ _)
      have hstopped : stopped.exec (Nonterminal.run bound) (state.atWord trivia word rest) = _ :=
        exec_stopped (List.cons_ne_nil _ _) hwithin
      rw [script, exec_bind_of_ok hstopped, exec_bind_of_ok (exec_stopped hnonempty hwithin)]
      show (currentIs .braceClose >>= _).exec _ _ = (currentIs .braceClose >>= _).exec _ _
      rw [exec_bind_of_ok (exec_currentIs hahead hlooks .braceClose),
        exec_bind_of_ok (exec_currentIs hhere (by exact hlooks) .braceClose), State.atWord_nil hhere.ahead]
    rw [Nonterminal.run, Nonterminal.run, ruleOf, hsame]

/-! ### Scripts -/

section

variable {more : List Token} {left : Nat} (bound : Nat) (hjump : jumpName? keyword.kind = some (node, what))
  (hsteps : state.stepsLeft? = none) (hdepth : state.depthLimit? = none) (hwithin : state.exceeded? = none)
  (hlooks : state.looks = left + 1)

include hjump hsteps hdepth hwithin hlooks

/-- A script goes on at the word behind a jump that lacks its semicolon. -/
theorem run_script_missing (hahead : state.HasAhead trivia keyword (more ++ word :: rest))
    (hmore : ∀ token ∈ more, token.kind.isTrivia = true) (hword : word.kind.isTrivia = false)
    (hother : (word.kind == .semicolon) = false) (hfresh : state.lastReport? ≠ some keyword.start) :
    Nonterminal.script.run (bound + 2) state = Nonterminal.script.run (bound + 1) { state with
      behind := more.reverse ++ keyword :: (trivia.reverse ++ state.behind)
      ahead := word :: rest
      pending := more.reverse
      placed := .node node [State.leafOf keyword] :: ((trivia.reverse ++ state.pending).map State.leafOf ++ state.placed)
      reports := keyword.missingSemicolon what :: state.reports
      lastReport? := some keyword.start
      looks := State.lookLimit } := by
  have hstatement := @run_statement_jump { state.atWord trivia keyword (more ++ word :: rest) with looks := left } _ _ _ _
    bound _ hjump ⟨rfl, nofun, hahead.word⟩ hdepth
    (exec_jumpStatement_missing rfl hmore hahead.word hword hother hsteps hfresh)
  exact run_script hahead hwithin hlooks (starts_of_jumpName? hjump).2.2.1 hstatement

/-- A script goes on behind a jump and its semicolon. -/
theorem run_script_jump (hahead : state.HasAhead trivia keyword (semicolon :: rest)) (hend : semicolon.kind = .semicolon) :
    Nonterminal.script.run (bound + 2) state = Nonterminal.script.run (bound + 1) { state with
      behind := semicolon :: keyword :: (trivia.reverse ++ state.behind)
      ahead := rest
      pending := []
      placed := .node node [State.leafOf keyword, State.leafOf semicolon] ::
        ((trivia.reverse ++ state.pending).map State.leafOf ++ state.placed)
      looks := State.lookLimit } := by
  have hstatement := @run_statement_jump { state.atWord trivia keyword (semicolon :: rest) with looks := left } _ _ _ _
    bound _ hjump ⟨rfl, nofun, hahead.word⟩ hdepth (exec_jumpStatement rfl hend hsteps)
  exact run_script hahead hwithin hlooks (starts_of_jumpName? hjump).2.2.1 hstatement

end

/-! ### Jumps at the start of a script -/

section

variable {tokens : List Token} {size : Nat} (bound : Nat) (hjump : jumpName? keyword.kind = some (node, what))
  (htrivia : ∀ token ∈ trivia, token.kind.isTrivia = true) (hkeyword : keyword.kind.isTrivia = false)

include hjump htrivia

/-- What stands behind a jump that lacks its semicolon is read as a script of its own, with the report in front. -/
theorem run_initial_missing (hstop : keyword.start < keyword.stop)
    (hnext : tokens.find? (!·.kind.isTrivia) = some word) (hother : word.kind ≠ .semicolon) :
    Nonterminal.script.run (bound + 2) (.initial .unbounded
        (trivia ++ keyword :: tokens.map (Token.shift keyword.stop)) (size + keyword.stop))
      = Nonterminal.script.run (bound + 1) ((Front.ofLast keyword trivia.reverse
          (.node node [State.leafOf keyword] :: trivia.reverse.map State.leafOf) (some (keyword.missingSemicolon what))
          (by simpa using hstop) hkeyword).state (.initial .unbounded tokens size)) := by
  obtain ⟨hword, blanks, more, htokens, hblanks⟩ := List.find?_eq_some_iff_append.mp hnext
  have hword : (word.shift keyword.stop).kind.isTrivia = false := by simpa [Token.shift] using hword
  have hblanks : ∀ token ∈ blanks.map (Token.shift keyword.stop), token.kind.isTrivia = true := by
    simpa [Token.shift] using hblanks
  have hshift : tokens.map (Token.shift keyword.stop)
      = blanks.map (Token.shift keyword.stop) ++ word.shift keyword.stop :: more.map (Token.shift keyword.stop) := by
    rw [htokens, List.map_append, List.map_cons]
  -- the blanks in front of the text have been passed in the looks for the semicolon
  rw [← run_script_atWord (bound + 1) ⟨hshift, hblanks, hword⟩ rfl rfl]
  have hstart : (State.initial .unbounded (trivia ++ keyword :: tokens.map (Token.shift keyword.stop))
      (size + keyword.stop)).HasAhead trivia keyword
        (blanks.map (Token.shift keyword.stop) ++ word.shift keyword.stop :: more.map (Token.shift keyword.stop)) :=
    ⟨by rw [← hshift]; rfl, htrivia, hkeyword⟩
  refine (run_script_missing bound hjump rfl rfl rfl rfl hstart hblanks hword (beq_eq_false_iff_ne.mpr hother)
    (by simp [State.initial])).trans ?_
  simp [State.atWord, Front.ofLast, Front.state, State.initial]

/-- What stands behind a jump and its semicolon is read as a script of its own. -/
theorem run_initial_jump (hsemicolon : semicolon.kind.isTrivia = false) (hend : semicolon.kind = .semicolon) :
    Nonterminal.script.run (bound + 2) (.initial .unbounded
        ((trivia ++ [keyword]) ++ semicolon :: tokens.map (Token.shift semicolon.stop)) (size + semicolon.stop))
      = Nonterminal.script.run (bound + 1) ((Front.ofLast semicolon (keyword :: trivia.reverse)
          (.node node [State.leafOf keyword, State.leafOf semicolon] :: trivia.reverse.map State.leafOf) none
          (by simp) hsemicolon).state (.initial .unbounded tokens size)) := by
  have hkeyword := (starts_of_jumpName? hjump).1
  have hstart : (State.initial .unbounded ((trivia ++ [keyword]) ++ semicolon :: tokens.map (Token.shift semicolon.stop))
      (size + semicolon.stop)).HasAhead trivia keyword (semicolon :: tokens.map (Token.shift semicolon.stop)) :=
    ⟨by simp [State.initial], htrivia, hkeyword⟩
  refine (run_script_jump bound hjump rfl rfl rfl rfl hstart hend).trans ?_
  simp [Front.ofLast, Front.state, State.initial]

end

end Grammar

/-- A jump that starts a script and lacks its semicolon is reported with a fix. Once the fix is applied that report is gone;
the text behind the jump has the same statements and the same diagnostics, moved on by the semicolon. -/
theorem Script.parse_fixed_jump {source fixed text : String} {trivia rest others : List Token} {keyword semicolon word : Token}
    {node : Kind} {what : String} {script : Script} (htokens : (Lexed.ofSource source).tokens = trivia ++ keyword :: rest)
    (hfixed : (Lexed.ofSource fixed).tokens = (trivia ++ [keyword]) ++ semicolon :: others)
    (htrivia : ∀ token ∈ trivia, token.kind.isTrivia = true)
    (hjump : Grammar.jumpName? keyword.kind = some (node, what)) (hend : semicolon.kind = .semicolon)
    (hrest : rest.map Token.leaf = (Lexed.ofSource text).tokens.map Token.leaf)
    (hothers : others.map Token.leaf = (Lexed.ofSource text).tokens.map Token.leaf)
    (hnext : (Lexed.ofSource text).tokens.find? (!·.kind.isTrivia) = some word) (hother : word.kind ≠ .semicolon)
    (hparse : Script.parse text .unbounded = .ok script) :
    ∃ whole repaired, Script.parse source .unbounded = .ok whole ∧ Script.parse fixed .unbounded = .ok repaired ∧
      whole.diagnostics = keyword.missingSemicolon what :: script.diagnostics.map (Diagnostic.shift keyword.stop) ∧
      repaired.diagnostics = script.diagnostics.map (Diagnostic.shift semicolon.stop) ∧
      whole.root = .node .script (trivia.map State.leafOf ++ .node node [.token keyword.leaf] :: script.root.children) ∧
      repaired.root = .node .script
        (trivia.map State.leafOf ++ .node node [.token keyword.leaf, .token semicolon.leaf] :: script.root.children) := by
  obtain ⟨hkeyword, hgarbage, -⟩ := Grammar.starts_of_jumpName? hjump
  have hsemicolon : semicolon.kind.isTrivia = false := by rw [hend]; rfl
  have hsound : ∀ token ∈ trivia ++ [keyword], token.kind ≠ .garbage := by
    intro token hmem
    obtain hmem | hmem := List.mem_append.mp hmem
    · exact fun heq => absurd (heq ▸ htrivia token hmem) (by decide)
    · rw [List.mem_singleton.mp hmem]
      exact beq_eq_false_iff_ne.mp hgarbage
  have hbefore : keyword.start < keyword.stop := by
    have htile := (Lexed.tile_ofSource source).1
    rw [htokens] at htile
    obtain ⟨middle, -, hstart, hpos, -⟩ := htile.split
    omega
  have hpassed : ∀ token ∈ (trivia ++ [keyword]) ++ [semicolon], token.kind ≠ .garbage := by
    intro token hmem
    obtain hmem | hmem := List.mem_append.mp hmem
    · exact hsound token hmem
    · rw [List.mem_singleton.mp hmem, hend]
      decide
  obtain ⟨whole, hwhole, hroot, hdiagnostics⟩ := Script.parse_front htokens hrest hsound
    (Grammar.run_initial_missing _ hjump htrivia hkeyword hbefore hnext hother) (by omega) hparse
  obtain ⟨repaired, hrepaired, hmended, hnone⟩ := Script.parse_front hfixed hothers hpassed
    (Grammar.run_initial_jump _ hjump htrivia hsemicolon hend) (by omega) hparse
  refine ⟨whole, repaired, hwhole, hrepaired, hdiagnostics, hnone, ?_, ?_⟩
  · rw [hroot]
    simp [State.leafOf, Token.leaf]
  · rw [hmended]
    simp [State.leafOf, Token.leaf]

/-- It holds of a closing parenthesis behind the jump, which is an error of its own and stays one. -/
theorem Script.parse_fixed_jump_parenClose :
    ∃ script whole repaired, Script.parse " )" .unbounded = .ok script ∧ Script.parse "break )" .unbounded = .ok whole ∧
      Script.parse "break; )" .unbounded = .ok repaired ∧
      whole.diagnostics = Token.missingSemicolon ⟨.kwBreak, 0, "break"⟩ "`break`" ::
        script.diagnostics.map (Diagnostic.shift 5) ∧
      repaired.diagnostics = script.diagnostics.map (Diagnostic.shift 6) := by
  have htokens : (Lexed.ofSource "break )").tokens
      = [] ++ ⟨.kwBreak, 0, "break"⟩ :: [⟨.whitespace, 5, " "⟩, ⟨.parenClose, 6, ")"⟩] := by
    rw [← Lexed.computed_eq]
    decide +kernel
  have hfixed : (Lexed.ofSource "break; )").tokens = ([] ++ [⟨.kwBreak, 0, "break"⟩]) ++
      ⟨.semicolon, 5, ";"⟩ :: [⟨.whitespace, 6, " "⟩, ⟨.parenClose, 7, ")"⟩] := by
    rw [← Lexed.computed_eq]
    decide +kernel
  have htext : (Lexed.ofSource " )").tokens = [⟨.whitespace, 0, " "⟩, ⟨.parenClose, 1, ")"⟩] := by
    rw [← Lexed.computed_eq]
    decide +kernel
  have hnext : (Lexed.ofSource " )").tokens.find? (!·.kind.isTrivia) = some ⟨.parenClose, 1, ")"⟩ := by
    rw [htext]
    rfl
  have houtcome : (Script.outcome? " )" .unbounded).any (fun _ => true) = true := by decide +kernel
  obtain ⟨script, -, hparse, -⟩ := Script.exists_of_outcome houtcome
  obtain ⟨whole, repaired, hwhole, hrepaired, hdiagnostics, hnone, -⟩ :=
    Script.parse_fixed_jump htokens hfixed (by simp) rfl rfl (by rw [htext]; rfl) (by rw [htext]; rfl) hnext (by decide) hparse
  exact ⟨script, whole, repaired, hparse, hwhole, hrepaired, hdiagnostics, hnone⟩

end Squirrel

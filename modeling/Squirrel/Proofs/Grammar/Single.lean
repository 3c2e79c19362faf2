import Squirrel.Proofs.Grammar.Resync
import Squirrel.Proofs.Parse.Limits

/-!
# Scripts of one operand

A script that is nothing but one operand, followed through the machine: the operand is the expression of the only
statement. It takes a step for every token, and one level of nesting each for the statement and for the expression.
-/

namespace Squirrel

namespace State

/-- In front of all tokens of a script, with just the allowance that one operand needs. -/
def facing (tokens : List Token) (length depth looks : Nat) : State :=
  { initial ⟨some tokens.length, some 2⟩ tokens length with depth, looks }

/-- Behind all tokens of a script, with one tree for them. -/
def past (tokens : List Token) (length depth looks : Nat) (tree : Tree) : State :=
  { facing tokens length depth looks with
    behind := tokens.reverse
    ahead := []
    placed := [tree]
    stepsLeft? := some 0 }

end State

namespace Grammar

open Rule State

/-- The tokens are an operand, and the tree is the one for them. -/
def IsOperand (tokens : List Token) (tree : Tree) : Prop :=
  ∀ (runCall : Nonterminal → State → Except Fault State) (length : Nat),
    (operand false).exec runCall (facing tokens length 2 lookLimit) = .ok (true, past tokens length 2 lookLimit tree)

variable {tokens : List Token} {tree : Tree} {bound length : Nat}

theorem exec_stopped_past (runCall : Nonterminal → State → Except Fault State) (depth looks : Nat) :
    stopped.exec runCall (past tokens length depth looks tree) = .ok (true, past tokens length depth looks tree) := rfl

/-- Nothing follows the operand. -/
theorem run_expression_of_isOperand (hoperand : IsOperand tokens tree) (looks : Nat) :
    (Nonterminal.expression 0 false).run (bound + 2) (facing tokens length 1 looks)
      = .ok (past tokens length 1 lookLimit tree) := by
  have hdescend : (ofStep .descend).exec (Nonterminal.run (bound + 1)) (facing tokens length 1 looks)
      = .ok (true, facing tokens length 2 lookLimit) := rfl
  have hmark : (ofStep .mark).exec (Nonterminal.run (bound + 1)) (facing tokens length 2 lookLimit)
      = .ok (0, facing tokens length 2 lookLimit) := rfl
  have hoperators : (Nonterminal.operators 0 0).run (bound + 1) (past tokens length 2 lookLimit tree)
      = .ok (past tokens length 2 lookLimit tree) := by
    apply run_of_exec
    rw [ruleOf, operators, exec_bind_of_ok (exec_stopped_past ..)]
    rfl
  apply run_of_exec
  rw [ruleOf, expressionOf, exec_bind_of_ok hdescend]
  show (ofStep .mark >>= _).exec _ _ = _
  rw [exec_bind_of_ok hmark, exec_bind_of_ok (hoperand _ _)]
  show (call (.operators 0 0) >>= _).exec _ _ = _
  rw [exec_bind_of_ok (exec_call hoperators)]
  rfl

variable {first : Token} {rest : List Token}

/-- A number, or the minus sign in front of one, starts an expression statement. -/
theorem run_statement_of_isOperand (hoperand : IsOperand (first :: rest) tree)
    (hfirst : first.kind = .integerLit ∨ first.kind = .minus) (looks : Nat) :
    Nonterminal.statement.run (bound + 3) (facing (first :: rest) length 0 looks)
      = .ok (past (first :: rest) length 0 lookLimit (.node .expressionStatement [tree])) := by
  have hall : ∀ kind ∈ [Kind.integerLit, .minus], kind.isTrivia = false ∧ (kind == .garbage) = false ∧
      TokenSet.statementFirst.contains kind = true := by
    decide
  obtain ⟨hword, hgarbage, hstarts⟩ := hall first.kind (by simpa using hfirst)
  have hhere (depth looks : Nat) : (facing (first :: rest) length depth looks).HasAhead [] first rest := ⟨rfl, nofun, hword⟩
  have hdescend : (ofStep .descend).exec (Nonterminal.run (bound + 2)) (facing (first :: rest) length 0 looks)
      = .ok (true, facing (first :: rest) length 1 lookLimit) := rfl
  have hnot : (currentIs .garbage).exec (Nonterminal.run (bound + 2)) (facing (first :: rest) length 1 lookLimit)
      = .ok (false, facing (first :: rest) length 1 (lookLimit - 1)) := by
    rw [exec_currentIs (hhere 1 lookLimit) rfl, hgarbage]
    rfl
  have hstart : startsStatement.exec (Nonterminal.run (bound + 2)) (facing (first :: rest) length 1 (lookLimit - 1))
      = .ok (true, facing (first :: rest) length 1 (lookLimit - 2)) := by
    rw [startsStatement, exec_currentIn (hhere 1 (lookLimit - 1)) rfl, hstarts]
    rfl
  have hinner : (expression >>= fun _ => eat .semicolon >>= fun _ => pure ()).exec (Nonterminal.run (bound + 2))
      (facing (first :: rest) length 1 (lookLimit - 3))
      = .ok ((), past (first :: rest) length 1 (lookLimit - 1) tree) := by
    rw [expression, exec_bind_of_ok (exec_call (run_expression_of_isOperand hoperand _))]
    rfl
  have hknown : knownStatement.exec (Nonterminal.run (bound + 2)) (facing (first :: rest) length 1 (lookLimit - 2))
      = .ok ((), past (first :: rest) length 1 (lookLimit - 1) (.node .expressionStatement [tree])) := by
    rw [knownStatement, exec_bind_of_ok (exec_current (hhere 1 (lookLimit - 2)) rfl)]
    have hnode := @exec_node (Nonterminal.run (bound + 2)) (facing (first :: rest) length 1 (lookLimit - 3))
      .expressionStatement _ _ hinner
    obtain hkind | hkind := hfirst
    · rw [hkind]
      exact hnode
    · rw [hkind]
      exact hnode
  apply run_of_exec
  rw [ruleOf, statement, exec_bind_of_ok hdescend]
  show (currentIs .garbage >>= _).exec _ _ = _
  rw [exec_bind_of_ok hnot]
  show (startsStatement >>= _).exec _ _ = _
  rw [exec_bind_of_ok hstart]
  show (knownStatement >>= _).exec _ _ = _
  rw [exec_bind_of_ok hknown]
  rfl

/-- Nothing follows the statement. -/
theorem run_script_of_isOperand (hoperand : IsOperand (first :: rest) tree)
    (hfirst : first.kind = .integerLit ∨ first.kind = .minus) :
    Nonterminal.script.run (bound + 4) (facing (first :: rest) length 0 lookLimit)
      = .ok (past (first :: rest) length 0 lookLimit (.node .expressionStatement [tree])) := by
  have hall : ∀ kind ∈ [Kind.integerLit, .minus], kind.isTrivia = false ∧ (kind == .braceClose) = false := by decide
  obtain ⟨hword, hbrace⟩ := hall first.kind (by simpa using hfirst)
  have hend : Nonterminal.script.run (bound + 3) (past (first :: rest) length 0 lookLimit (.node .expressionStatement [tree]))
      = .ok (past (first :: rest) length 0 lookLimit (.node .expressionStatement [tree])) := by
    apply run_of_exec
    rw [ruleOf, script, exec_bind_of_ok (exec_stopped_past ..)]
    rfl
  have hhere : (facing (first :: rest) length 0 lookLimit).HasAhead [] first rest :=
    ⟨rfl, List.forall_mem_nil _, hword⟩
  have hstatement : Nonterminal.statement.run (bound + 3) (facing (first :: rest) length 0 (lookLimit - 1)) = _ :=
    run_statement_of_isOperand hoperand hfirst _
  exact (run_script hhere rfl rfl hbrace hstatement).trans hend

/-! ### Numbers -/

theorem isOperand_integer (start : Nat) (text : String) :
    IsOperand [⟨.integerLit, start, text⟩] (.node .integer [.token ⟨.integerLit, text⟩]) :=
  fun _ _ => rfl

/-- The minus sign belongs to the number right behind it. -/
theorem isOperand_negative {start stop : Nat} {sign text : String}
    (hfolds : isFoldable ⟨.integerLit, stop, text⟩ = true) :
    IsOperand [⟨.minus, start, sign⟩, ⟨.integerLit, stop, text⟩]
      (.node .integer [.token ⟨.minus, sign⟩, .token ⟨.integerLit, text⟩]) := by
  intro runCall length
  let tokens : List Token := [⟨.minus, start, sign⟩, ⟨.integerLit, stop, text⟩]
  have hhere : (facing tokens length 2 lookLimit).HasAhead [] ⟨.minus, start, sign⟩ [⟨.integerLit, stop, text⟩] :=
    ⟨rfl, nofun, rfl⟩
  have hfollows : (ofStep .numberFollows).exec runCall (facing tokens length 2 (lookLimit - 1))
      = .ok (true, facing tokens length 2 (lookLimit - 1)) := by
    show Except.ok (isFoldable ⟨.integerLit, stop, text⟩, _) = _
    rw [hfolds]
    rfl
  rw [operand, exec_bind_of_ok (exec_current hhere rfl)]
  show (ofStep .numberFollows >>= _).exec _ (facing tokens length 2 (lookLimit - 1)) = _
  rw [exec_bind_of_ok hfollows]
  rfl

end Grammar

/-- A source whose tokens are one operand parses to a statement of it, if a step for each token and two levels are
allowed. -/
theorem Script.exists_parse_of_isOperand {source : String} {limits : Limits} {first : Token} {rest : List Token}
    {tree : Tree} (htokens : (Lexed.ofSource source).tokens = first :: rest)
    (hclean : (Lexed.ofSource source).diagnostics = []) (hoperand : Grammar.IsOperand (first :: rest) tree)
    (hfirst : first.kind = .integerLit ∨ first.kind = .minus)
    (hallow : limits.Allow ⟨some (first :: rest).length, some 2⟩) :
    ∃ script, Script.parse source limits = .ok script ∧ script.diagnostics = [] ∧
      script.root = .node .script [.node .expressionStatement [tree]] := by
  let least : Limits := ⟨some (first :: rest).length, some 2⟩
  let after := State.past (first :: rest) source.utf8ByteSize 0 State.lookLimit (.node .expressionStatement [tree])
  have hstart : State.start source least = State.facing (first :: rest) source.utf8ByteSize 0 State.lookLimit := by
    rw [State.start, htokens]
    rfl
  have hbound : 4 ≤ nestingBound (Lexed.ofSource source).tokens.length := by
    rw [nestingBound]
    omega
  have hrun : Nonterminal.script.run (nestingBound (Lexed.ofSource source).tokens.length) (State.start source least)
      = .ok after := by
    rw [hstart]
    exact Nonterminal.run_of_le hbound (Grammar.run_script_of_isOperand hoperand hfirst)
  have hcomes : Script.Comes source least _ after := ⟨hrun, rfl, rfl⟩
  obtain ⟨other, hother, hroot, hdiagnostics⟩ := Script.exists_parse_of_allow hcomes.parse_eq hallow
  refine ⟨other, hother, ?_, hroot⟩
  rw [hdiagnostics, hclean]
  exact List.mergeSort_nil

end Squirrel

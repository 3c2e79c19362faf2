import Squirrel.Grammar.Statement
import Squirrel.Parse.State

/-!
# Running rules

`Rule.exec` runs a rule, given a way to run nonterminals; `Nonterminal.run` ties the knot for a bounded number of
nonterminals open at once. `parseTokens` runs the whole grammar with a bound that grows with the number of tokens:
between two moves a rule opens only a few nonterminals.
-/

namespace Squirrel

namespace Rule

/-- Runs a rule. A node takes the trees placed since its mark and those of its inner rule; the trees before the mark
stay its older siblings. -/
def exec (runCall : Nonterminal → State → Except Fault State) {α : Type} :
    Rule α → State → Except Fault (α × State)
  | done answer, state => .ok (answer, state)
  | step s rest, state =>
    match s.run state with
    | .error fault => .error fault
    | .ok (answer, state) => exec runCall (rest answer) state
  | wrap kind start inner rest, state =>
    let since := state.placed.length - start
    match exec runCall inner { state with placed := state.placed.take since } with
    | .error fault => .error fault
    | .ok ((), after) =>
      let tree := Tree.node kind after.placed.reverse
      exec runCall rest { after with placed := tree :: state.placed.drop since }
  | call nonterminal rest, state =>
    match runCall nonterminal state with
    | .error fault => .error fault
    | .ok state => exec runCall rest state

end Rule

namespace Nonterminal

/-- Runs a nonterminal with at most `bound` nonterminals open at once. -/
def run : Nat → Nonterminal → State → Except Fault State
  | 0, _, _ => .error .nestedTooDeep
  | bound + 1, nonterminal, state =>
    match Rule.exec (run bound) (Grammar.ruleOf nonterminal) state with
    | .error fault => .error fault
    | .ok ((), state) => .ok state

end Nonterminal

/-- Why a parse has no result. -/
inductive ParseError where
  | limit (exceeded : LimitExceeded)
  | fault (fault : Fault)
  deriving DecidableEq

structure Parsed where
  root : Tree
  diagnostics : List Diagnostic
  /-- How many steps the parse took, if they were limited. -/
  stepsTaken : Nat

/-- How many nonterminals a parse of so many tokens may have open at once. -/
def nestingBound (tokenCount : Nat) : Nat := 16 * (tokenCount + 2)

/-- Parses the tokens of a source: the grammar puts everything under one root, and the reports of the parse follow those
about the tokens, in the order of their starts. -/
def parseTokens (limits : Limits) (sourceLength : Nat) (lexed : Lexed) : Except ParseError Parsed :=
  let state := State.initial limits lexed.tokens sourceLength
  match Nonterminal.run (nestingBound lexed.tokens.length) .script state with
  | .error fault => .error (.fault fault)
  | .ok state =>
    match state.exceeded? with
    | some exceeded => .error (.limit exceeded)
    | none =>
      let state := state.passTrivia.placePending
      .ok {
        root := .node .script state.placed.reverse
        diagnostics := Diagnostic.sorted (lexed.diagnostics ++ state.reports.reverse)
        stepsTaken := limits.steps?.getD 0 - state.stepsLeft?.getD 0 }

end Squirrel

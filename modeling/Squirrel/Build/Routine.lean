import Squirrel.Grammar.Rule

/-!
# Routines

A rule holds what a node contains inside of it. A routine opens a node by one step and closes the innermost one by another,
as a parser does that calls a builder of trees: whether the two match is up to the routine, on every way that leads out of
it.
-/

namespace Squirrel

/-- A program of steps that opens and closes nodes. -/
inductive Routine : Type → Type 1 where
  | done {α : Type} (answer : α) : Routine α
  | step {α β : Type} (step : Step β) (rest : β → Routine α) : Routine α
  /-- Opens a node around the trees placed since a mark. -/
  | start {α : Type} (kind : Kind) (mark : Nat) (rest : Routine α) : Routine α
  /-- Closes the node that was opened last. -/
  | finish {α : Type} (rest : Routine α) : Routine α
  | call {α : Type} (nonterminal : Nonterminal) (rest : Routine α) : Routine α

namespace Routine

def bind {α β : Type} : Routine α → (α → Routine β) → Routine β
  | done answer, next => next answer
  | step s rest, next => step s fun answer => (rest answer).bind next
  | start kind mark rest, next => start kind mark (rest.bind next)
  | finish rest, next => finish (rest.bind next)
  | call nonterminal rest, next => call nonterminal (rest.bind next)

instance : Monad Routine where
  pure := done
  bind := bind

/-- The steps and calls of a rule that opens no node. Of one that does, the nodes are missing. -/
def ofRule {α : Type} : Rule α → Routine α
  | .done answer => done answer
  | .step s rest => step s fun answer => ofRule (rest answer)
  | .wrap _ _ _ rest => ofRule rest
  | .call nonterminal rest => call nonterminal (ofRule rest)

instance : MonadLift Rule Routine where
  monadLift := ofRule

end Routine

namespace Build

def startNodeAt (mark : Nat) (kind : Kind) : Routine Unit := .start kind mark (pure ())

/-- Opens a node behind the trivia that has been passed. -/
def startNode (kind : Kind) : Routine Unit := do
  let mark ← Rule.ofStep .mark
  startNodeAt mark kind

def finishNode : Routine Unit := .finish (pure ())

end Build

end Squirrel

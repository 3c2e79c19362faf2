import Squirrel.Build.Statement
import Squirrel.Parse.Machine

/-!
# Building trees

Runs routines on a stack of open nodes. Opening a node and closing the innermost one fail: a node is opened at a mark that
the innermost node holds, and closed where one is open. At the end one tree has to be left, and that a script.
-/

namespace Squirrel

/-- A node that has been opened, with the trees that stand before it in the node around it, the last one first. -/
structure OpenNode where
  kind : Kind
  older : List Tree

/-- A state of the parse and the nodes that are open, the innermost one first. -/
structure Site where
  state : State
  nodes : List OpenNode

/-- Why nothing is built. -/
inductive BuildError where
  | limit (exceeded : LimitExceeded)
  | fault (fault : Fault)
  /-- A node was to be opened at a mark behind all that the innermost open node holds. -/
  | staleMark
  /-- A node was to be closed and none was open. -/
  | noneOpen
  /-- What has been built is not one script. -/
  | malformed
  deriving DecidableEq

namespace Site

/-- The site inside of a node that is opened around the trees placed since a mark. -/
def opened (site : Site) (kind : Kind) (start : Nat) : Site :=
  let since := site.state.placed.length - start
  ⟨{ site.state with placed := site.state.placed.take since },
    ⟨kind, site.state.placed.drop since⟩ :: site.nodes⟩

/-- Opens a node at a mark, unless that is behind all that has been placed. -/
def openAt (site : Site) (kind : Kind) (start : Nat) : Except BuildError Site :=
  if start ≤ site.state.placed.length then .ok (site.opened kind start) else .error .staleMark

/-- Closes the innermost open node. -/
def close (site : Site) : Except BuildError Site :=
  match site.nodes with
  | [] => .error .noneOpen
  | node :: outer =>
    .ok ⟨{ site.state with placed := .node node.kind site.state.placed.reverse :: node.older }, outer⟩

/-- The tree of a finished parse: with the last trivia placed and all nodes closed there is one tree, which is a script. -/
def script? (site : Site) : Option Tree :=
  match site.nodes, site.state.placePending.placed with
  | [], [.node .script children] => some (.node .script children)
  | _, _ => none

end Site

namespace Routine

/-- Runs a routine on a stack of open nodes. -/
def build (buildCall : Nonterminal → Site → Except BuildError (Unit × Site)) {α : Type} :
    Routine α → Site → Except BuildError (α × Site)
  | done answer, site => .ok (answer, site)
  | step s rest, site =>
    match s.run site.state with
    | .error fault => .error (.fault fault)
    | .ok (answer, state) => build buildCall (rest answer) { site with state }
  | start kind mark rest, site => do
    let opened ← site.openAt kind mark
    build buildCall rest opened
  | finish rest, site => do
    let closed ← site.close
    build buildCall rest closed
  | call nonterminal rest, site => do
    let after ← buildCall nonterminal site
    build buildCall rest after.2

end Routine

/-- Runs a nonterminal on a stack of open nodes, with at most `bound` nonterminals open at once. -/
def Nonterminal.build : Nat → Nonterminal → Site → Except BuildError (Unit × Site)
  | 0, _, _ => .error (.fault .nestedTooDeep)
  | bound + 1, nonterminal, site => Routine.build (build bound) (Build.routineOf nonterminal) site

/-- Builds the tree of a source from its tokens. The nodes that are open at the end have to be one script. -/
def buildTokens (limits : Limits) (sourceLength : Nat) (lexed : Lexed) : Except BuildError Tree :=
  let site : Site := ⟨State.initial limits lexed.tokens sourceLength, []⟩
  match Build.wholeScript.build (Nonterminal.build (nestingBound lexed.tokens.length)) site with
  | .error error => .error error
  | .ok (_, last) =>
    match last.state.exceeded? with
    | some exceeded => .error (.limit exceeded)
    | none =>
      match last.script? with
      | some root => .ok root
      | none => .error .malformed

end Squirrel

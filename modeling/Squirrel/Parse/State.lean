import Squirrel.Grammar.Rule
import Squirrel.Tree

/-!
# The state of a parse

What a step of a rule finds and changes: the tokens before and after the place it stands at, the trees placed so far,
reports, open delimiters, and what is left of the limits. `Step.run` gives every step its meaning.
-/

namespace Squirrel

/-- How much work and nesting a parse may take. Without a bound there is no limit. -/
structure Limits where
  steps? : Option Nat
  depth? : Option Nat
  deriving DecidableEq

namespace Limits

def standard : Limits := ⟨some 1000000, some 256⟩

def unbounded : Limits := ⟨none, none⟩

end Limits

inductive LimitExceeded where
  | steps | depth
  deriving DecidableEq

namespace LimitExceeded

def message : LimitExceeded → String
  | steps => "execution limit exceeded"
  | depth => "recursion limit exceeded"

end LimitExceeded

/-- A check of the machine that failed; the parse stops where it stands. -/
inductive Fault where
  /-- A rule tried to move past the end of the input. -/
  | advancedPastEnd
  /-- Rules looked at tokens too often without moving on. -/
  | lookedTooOften
  /-- More nonterminals were open at once than the machine holds. -/
  | nestedTooDeep
  deriving DecidableEq

structure State where
  /-- The tokens passed so far, the last one first. -/
  behind : List Token
  /-- The tokens from here on. -/
  ahead : List Token
  /-- Trivia that has been passed but not placed, the last one first. -/
  pending : List Token
  /-- The trees placed in the innermost open node, the last one first. -/
  placed : List Tree
  /-- The reports, the last one first. -/
  reports : List Diagnostic
  /-- Where the last report of those that are made once stands. -/
  lastReport? : Option Nat
  /-- The open delimiters, the innermost one first. -/
  openers : List Opener
  /-- How often rules may still look at a token before they move on. -/
  looks : Nat
  stepsLeft? : Option Nat
  depth : Nat
  depthLimit? : Option Nat
  exceeded? : Option LimitExceeded
  /-- The length of the source. -/
  sourceLength : Nat

namespace State

/-- How often rules may look at a token between two moves. -/
def lookLimit : Nat := 256

def initial (limits : Limits) (tokens : List Token) (sourceLength : Nat) : State where
  behind := []
  ahead := tokens
  pending := []
  placed := []
  reports := []
  lastReport? := none
  openers := []
  looks := lookLimit
  stepsLeft? := limits.steps?
  depth := 0
  depthLimit? := limits.depth?
  exceeded? := none
  sourceLength

def leafOf (token : Token) : Tree := .token ⟨token.kind, token.text⟩

/-! ### Trivia -/

/-- Passes the trivia here. -/
def passTrivia (state : State) : State :=
  let trivia := state.ahead.takeWhile (·.kind.isTrivia)
  { state with
    behind := trivia.reverse ++ state.behind
    ahead := state.ahead.dropWhile (·.kind.isTrivia)
    pending := trivia.reverse ++ state.pending }

/-- Places the trivia that has been passed. -/
def placePending (state : State) : State :=
  { state with pending := [], placed := state.pending.map leafOf ++ state.placed }

/-! ### Looking -/

/-- The kind at the head of the tokens; past the last one, `Kind.error`. -/
def kindOf : List Token → Kind
  | [] => .error
  | token :: _ => token.kind

def spendLook (state : State) : Except Fault State :=
  match state.looks with
  | 0 => .error .lookedTooOften
  | left + 1 => .ok { state with looks := left }

def spanHere (state : State) : Span :=
  match state.ahead with
  | [] => ⟨state.sourceLength, state.sourceLength⟩
  | token :: _ => token.span

def atEnd (state : State) : Bool := state.ahead.isEmpty

def stopped (state : State) : Bool := state.atEnd || state.exceeded?.isSome

def afterLineBreak (state : State) : Bool := (state.behind.takeWhile (·.kind.isTrivia)).any Token.breaksLine

/-- A decimal number that does not start with zero, or one with digits on both sides of a point. -/
def isFoldable (token : Token) : Bool :=
  match token.kind with
  | .integerLit => token.text.toList.head?.any fun c => '1' ≤ c && c ≤ '9'
  | .floatLit =>
    let fraction := (token.text.toList.dropWhile (· != '.')).drop 1
    fraction.head?.any fun c => '0' ≤ c && c ≤ '9'
  | _ => false

/-! ### Moving -/

/-- Takes one step off the allowance. Once none is left the limit counts as exceeded. -/
def spendStep (state : State) : State :=
  match state.stepsLeft? with
  | none => state
  | some 0 => { state with exceeded? := state.exceeded?.orElse fun _ => some .steps }
  | some (left + 1) => { state with stepsLeft? := some left }

def advance (state : State) : Except Fault State :=
  match state.ahead with
  | [] => .error .advancedPastEnd
  | token :: rest =>
    let state := state.spendStep.placePending
    .ok { state with
      behind := token :: state.behind
      ahead := rest
      placed := leafOf token :: state.placed
      looks := lookLimit }

/-! ### Reporting -/

def reportOnce (state : State) (offset : Nat) (diagnostic : Diagnostic) : State :=
  if state.lastReport? = some offset then state
  else { state with lastReport? := some offset, reports := diagnostic :: state.reports }

/-! ### Nesting -/

def descend (state : State) : Bool × State :=
  if state.depthLimit?.any (· ≤ state.depth) then
    (false, { state with exceeded? := state.exceeded?.orElse fun _ => some .depth })
  else (true, { state with depth := state.depth + 1, looks := lookLimit })

def ascend (state : State) : State := { state with depth := state.depth - 1, looks := lookLimit }

end State

namespace Step

/-- What a step answers and how it changes the state. -/
def run {α : Type} (step : Step α) (state : State) : Except Fault (α × State) :=
  match step with
  | .current => do
    let state ← state.passTrivia.spendLook
    return (State.kindOf state.ahead, state)
  | .adjacent => do
    let state ← state.passTrivia.spendLook
    return (State.kindOf state.ahead.tail, state)
  | .next =>
    let state := state.passTrivia
    .ok (State.kindOf (state.ahead.tail.dropWhile (·.kind.isTrivia)), state)
  | .currentSpan =>
    let state := state.passTrivia
    .ok (state.spanHere, state)
  | .afterLineBreak =>
    let state := state.passTrivia
    .ok (state.afterLineBreak, state)
  | .numberFollows =>
    let state := state.passTrivia
    .ok (state.ahead.tail.head?.any State.isFoldable, state)
  | .previous => .ok (state.behind.find? (!·.kind.isTrivia), state)
  | .atEnd => .ok (state.atEnd, state)
  | .stopped => .ok (state.stopped, state)
  | .advance => do return ((), ← state.advance)
  | .mark =>
    let state := state.placePending
    .ok (state.placed.length, state)
  | .placeTrivia => .ok ((), state.passTrivia.placePending)
  | .pushOpener opener => .ok ((), { state with openers := opener :: state.openers })
  | .popOpener => .ok (state.openers.head?, { state with openers := state.openers.tail })
  | .report diagnostic => .ok ((), { state with reports := diagnostic :: state.reports })
  | .reportOnce offset diagnostic => .ok ((), state.reportOnce offset diagnostic)
  | .descend => .ok state.descend
  | .ascend => .ok ((), state.ascend)

end Step

end Squirrel

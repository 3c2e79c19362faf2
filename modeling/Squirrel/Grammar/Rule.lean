import Squirrel.Diagnostic
import Squirrel.Token
import Squirrel.TokenSet

/-!
# Grammar rules as programs

A rule is a program made of steps: it looks at the token it stands at, moves on, reports, and remembers open delimiters.
It may wrap what it places in a node, and it may call a nonterminal. Rules only describe; a machine runs them. As every
loop of the grammar is a nonterminal that calls itself, a rule by itself is finite, and what holds of every step holds
of every rule.
-/

namespace Squirrel

/-- The parts of the grammar that contain each other or repeat. A list that repeats carries what it remembers between
its members. -/
inductive Nonterminal where
  | script
  | statement
  | blockStatements
  | caseStatements
  | switchClauses (seenDefault : Bool)
  | localBindings
  | expression (power : Nat) (tableAllowed : Bool)
  | operators (start : Nat) (power : Nat)
  | arguments
  | elements
  | slots
  /-- The variadic parameters seen so far, with their places in the list, and how many parameters there are. -/
  | parameterList (variadics : List (Nat × Span)) (count : Nat)
  | path (separator : Kind)
  | members
  | enumEntries
  | attributeList
  | skipUntil (recovery : TokenSet)
  | skipToStatement

/-- An opening delimiter that waits for its closer. -/
structure Opener where
  kind : Kind
  span : Span
  deriving DecidableEq

/-- What a rule can do in one step, and the answer it gets. Looking at a token first passes the trivia before it. -/
inductive Step : Type → Type where
  /-- The kind of the token here; past the last one, `Kind.error`. -/
  | current : Step Kind
  /-- The kind of the token or trivia right after the one here. -/
  | adjacent : Step Kind
  /-- The kind of the next token after the one here, trivia left out. -/
  | next : Step Kind
  /-- The span of the token here; past the last one, the empty span at the end. -/
  | currentSpan : Step Span
  /-- Whether the token here is on another line than the token before it. -/
  | afterLineBreak : Step Bool
  /-- Whether the token after the one here is a number that a minus sign right before it belongs to. -/
  | numberFollows : Step Bool
  /-- The last token that was passed, trivia left out. -/
  | previous : Step (Option Token)
  /-- Whether nothing is left, not even trivia. -/
  | atEnd : Step Bool
  /-- Whether nothing is left or a limit has been exceeded. -/
  | stopped : Step Bool
  /-- Places the token here and moves past it. -/
  | advance : Step Unit
  /-- Places the trivia that has been passed, and tells how many trees have been placed so far. -/
  | mark : Step Nat
  /-- Passes and places the trivia here. -/
  | placeTrivia : Step Unit
  | pushOpener (opener : Opener) : Step Unit
  | popOpener : Step (Option Opener)
  | report (diagnostic : Diagnostic) : Step Unit
  /-- Reports about an offset, unless the last report of this sort was about the same one. -/
  | reportOnce (offset : Nat) (diagnostic : Diagnostic) : Step Unit
  /-- Goes down one level of nesting, unless that exceeds the limit. -/
  | descend : Step Bool
  | ascend : Step Unit

/-- A program of steps with an answer. -/
inductive Rule : Type → Type 1 where
  | done {α : Type} (answer : α) : Rule α
  | step {α β : Type} (step : Step β) (rest : β → Rule α) : Rule α
  /-- Wraps the trees placed since a mark, together with those that the inner rule places, in a node. -/
  | wrap {α : Type} (kind : Kind) (start : Nat) (inner : Rule Unit) (rest : Rule α) : Rule α
  | call {α : Type} (nonterminal : Nonterminal) (rest : Rule α) : Rule α

namespace Rule

def bind {α β : Type} : Rule α → (α → Rule β) → Rule β
  | done answer, next => next answer
  | step s rest, next => step s fun answer => (rest answer).bind next
  | wrap kind start inner rest, next => wrap kind start inner (rest.bind next)
  | call nonterminal rest, next => call nonterminal (rest.bind next)

instance : Monad Rule where
  pure := done
  bind := bind

def ofStep {α : Type} (s : Step α) : Rule α := step s done

end Rule

namespace Grammar

def call (nonterminal : Nonterminal) : Rule Unit := .call nonterminal (.done ())

def current : Rule Kind := .ofStep .current

def currentSpan : Rule Span := .ofStep .currentSpan

def atEnd : Rule Bool := .ofStep .atEnd

def stopped : Rule Bool := .ofStep .stopped

def advance : Rule Unit := .ofStep .advance

/-- A node around the trees placed since a mark and those of the inner rule. -/
def nodeFrom (start : Nat) (kind : Kind) (inner : Rule Unit) : Rule Unit := .wrap kind start inner (.done ())

/-- A node around the trees of the inner rule. -/
def node (kind : Kind) (inner : Rule Unit) : Rule Unit := do
  let start ← .ofStep .mark
  nodeFrom start kind inner

def currentIs (kind : Kind) : Rule Bool := do
  let here ← current
  return here == kind

def currentIn (set : TokenSet) : Rule Bool := do
  let here ← current
  return set.contains here

/-- Moves past a token of the given kind, if one is here. -/
def eat (kind : Kind) : Rule Bool := do
  if ← currentIs kind then
    advance
    return true
  else return false

end Grammar

end Squirrel
